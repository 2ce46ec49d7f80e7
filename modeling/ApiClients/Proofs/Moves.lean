import ApiClients.Proofs.ReadingOperations

/-!
# The moves of reading

Whatever is read, the state changes by a few kinds of moves only: a node is put into the graph, a
definition is entered or added, a new node is filled piece by piece or made to stand for another
one.  A history says which moves lead from one state to another; each of its moves has to be one that
reading may make there (`Allowed`).  So what every allowed move keeps holds after reading.

A history is told for a scope: the schemas that reading may come to.
-/

namespace ApiClients.Reading

/-! ### Scopes -/

/-- Schemas that reading may come to, and schema objects that it may fill a node with.  They may
count on some definitions. -/
structure Scope where
  basis : List (Json × Json)
  schema : Json → Prop
  shape : List (String × Json) → Prop
  plain : ∀ {members}, schema (.obj members) → Plain members → shape members
  variant : ∀ {members inner}, schema (.obj members) → Variant members inner → schema inner
  nested : ∀ {members}, shape members → ∀ entry ∈ Reading.nested members, schema entry.2

namespace Scope

/-- All schemas. -/
def all : Scope where
  basis := []
  schema _ := True
  shape _ := True
  plain _ _ := trivial
  variant _ _ := trivial
  nested _ _ _ := trivial

/-- What a definition may say in a scope. -/
def Defines (scope : Scope) : Json → Prop
  | .obj [("$ref", ref)] => scope.schema (.obj [("$ref", ref)])
  | .obj members => scope.shape members
  | _ => True

/-- All that is read from a state lies in the scope. -/
structure Covers (scope : Scope) (s : Reading) : Prop where
  basis : scope.basis <+: s.definitions
  declared : ∀ {name}, Entries.has s.named name = true → Entries.has s.definitions name = true
  definitions : ∀ {name data}, Entries.get? s.definitions name = some data → scope.Defines data
  undeclared : ∀ {members ref}, scope.schema (.obj members) → Points members (.str ref) →
    Entries.has s.definitions (.str (Json.refName ref)) = false →
    scope.schema (Json.target s.source ref)

theorem covers_all {s : Reading} (hdeclared : ∀ {name}, Entries.has s.named name = true →
    Entries.has s.definitions name = true) : all.Covers s := by
  refine ⟨List.nil_prefix, hdeclared, ?_, fun _ _ _ => trivial⟩
  intro name data _
  unfold Defines
  split <;> trivial

theorem Defines.shape {scope : Scope} {members : List (String × Json)}
    (h : scope.Defines (.obj members)) (hmembers : ∀ ref, members ≠ [("$ref", ref)]) :
    scope.shape members := by
  unfold Defines at h
  split at h
  · rename_i ref hlone
    cases hlone
    exact absurd rfl (hmembers ref)
  · rename_i hother
    cases hother
    exact h
  · rename_i hnot
    exact absurd rfl (hnot members)

theorem defines_of {scope : Scope} {data : Json}
    (hlone : ∀ ref, data = .obj [("$ref", ref)] → scope.schema data)
    (hshape : ∀ members, data = .obj members → (∀ ref, members ≠ [("$ref", ref)]) →
      scope.shape members) : scope.Defines data := by
  unfold Defines
  split
  · exact hlone _ rfl
  · rename_i members hmembers
    exact hshape members rfl fun ref hsame => hmembers ref hsame
  · trivial

theorem Defines.contents {scope : Scope} {data : Json} (h : scope.Defines data) :
    ∀ entry ∈ Reading.contents data, scope.schema entry.2 := by
  intro entry hentry
  cases data with
  | obj members =>
    by_cases hlone : ∃ ref, members = [("$ref", ref)]
    · obtain ⟨ref, rfl⟩ := hlone
      obtain rfl := List.mem_singleton.mp hentry
      exact h
    · have hmembers : ∀ ref, members ≠ [("$ref", ref)] := fun ref hsame => hlone ⟨ref, hsame⟩
      rw [contents_shape hmembers] at hentry
      exact scope.nested (h.shape hmembers) entry hentry
  | _ => cases hentry

end Scope

/-! ### Moves -/

/-- What is put into a node of a schema object after its simple keywords. -/
inductive Piece where
  | enumValues (values : List Json)
  | items (child : Option NodeId)
  | additional (value : Additional)
  | required (names : List Json)
  | property (name : String) (child : NodeId)
  | part (child : NodeId)
  | settle

/-- A node with a piece put into it. -/
def Piece.put (graph : Graph) : Piece → Node → Node
  | .enumValues values, node => { node with enumValues := values }
  | .items child, node => { node with items := child }
  | .additional value, node => { node with additional := value }
  | .required names, node => { node with required := names }
  | .property name child, node =>
    { node with properties := Entries.put name child node.properties }
  | .part child, node => absorb node (graph.actualNode child)
  | .settle, node => settleKinds node

/-- A node with the simple keywords of a schema object. -/
def putKeywords (members : List (String × Json)) (node : Node) : Node :=
  { node with
    kinds := kindsOf (Json.field members "type") (Json.field members "format")
    format := Json.field members "format"
    nullable := node.nullable || Json.admitsNull members
    description := Json.field members "description"
    default := Json.field members "default" }

/-- An elementary change of the state. -/
inductive Move where
  | note (event : Event)
  /-- A node that belongs to no definition is put into the graph. -/
  | add (node : Node)
  /-- A definition gets its node, which is blank. -/
  | enter (name : Json)
  /-- The filling of a node begins, with the simple keywords. -/
  | fill (id : NodeId) (members : List (String × Json))
  | put (id : NodeId) (piece : Piece)
  /-- A node is filled by making it stand for another one. -/
  | stand (id target : NodeId)
  | admitNull (id : NodeId)
  /-- A definition is added. -/
  | define (name data : Json)

namespace Move

/-- The state after a move. -/
def after (s : Reading) : Move → Reading
  | .note event => { s with journal := s.journal ++ [event] }
  | .add node => { s with graph := s.graph.push node }
  | .enter name => s.enter name
  | .fill id members => { s with graph := s.graph.modify id (putKeywords members) }
  | .put id piece => { s with graph := s.graph.modify id (piece.put s.graph) }
  | .stand id target =>
    { s with graph := s.graph.modify id fun n => { n with reference := some target } }
  | .admitNull id => { s with graph := s.graph.modify id fun n => { n with nullable := true } }
  | .define name data => { s with definitions := Entries.putNew s.definitions name data }

/-- The node whose filling begins with a move. -/
def filled? : Move → Option NodeId
  | .fill id _ => some id
  | .stand id _ => some id
  | _ => none

/-- The definition that gets its node with a move. -/
def entered? : Move → Option Json
  | .enter name => some name
  | _ => none

end Move

/-- The nodes that are filled by some moves, in order. -/
def filled (moves : List Move) : List NodeId := moves.filterMap Move.filled?

/-- The definitions that are entered by some moves, in order. -/
def entered (moves : List Move) : List Json := moves.filterMap Move.entered?

/-- A node of which nothing is known but the definition that it may belong to. -/
def Blank (s : Reading) (id : NodeId) : Prop :=
  id < s.graph.size ∧ ∃ name, s.graph.node id = { typeName := name }

/-- The nodes that are put into the graph for no definition. -/
inductive Fresh (graph : Graph) : Node → Prop
  | blank : Fresh graph {}
  | untyped (nullable : Bool) : Fresh graph (untypedObject nullable)
  | wrapper {target : NodeId} (h : target < graph.size) :
    Fresh graph { reference := some target, nullable := true }

/-- The pieces that a schema object in the scope may give a node, if some nodes may be put there. -/
def Suits (scope : Scope) (C : NodeId → Prop) : Piece → Prop
  | .items child => ∀ id, child = some id → C id
  | .additional value => ∀ id, value = .shape id → C id
  | .required names => ∃ members, scope.shape members
    ∧ Json.listed (Json.field members "required") = .ok names
  | .property _ child => C child
  | .enumValues _ | .part _ | .settle => True

/-- The pieces that a schema object in the scope may give a node in a graph. -/
def Fits (scope : Scope) (graph : Graph) : Piece → Prop := Suits scope (· < graph.size)

/-- The moves that reading may make in a state. -/
def Allowed (scope : Scope) (s : Reading) : Move → Prop
  | .note _ => True
  | .add node => Fresh s.graph node
  | .enter name => Entries.get? s.named name = none ∧ Entries.has s.definitions name = true
  | .fill id members => s.Blank id ∧ scope.shape members
  | .put id piece => (s.graph.node id).reference = none ∧ Fits scope s.graph piece
  | .stand id target => s.Blank id ∧ target < s.graph.size
  | .admitNull _ => True
  | .define name data => (∃ text, name = .str text) ∧ scope.Defines data

/-! ### Histories -/

/-- Moves lead from a state to another one, each of them allowed where it is made. -/
inductive History (scope : Scope) : Reading → List Move → Reading → Prop
  | done {s : Reading} : History scope s [] s
  | move {s t : Reading} {move : Move} {moves : List Move} (h : Allowed scope s move)
      (hrest : History scope (move.after s) moves t) : History scope s (move :: moves) t

namespace History

variable {scope : Scope} {s t u : Reading} {moves more : List Move} {move : Move}

theorem append (h : History scope s moves t) (h' : History scope t more u) :
    History scope s (moves ++ more) u := by
  induction h with
  | done => exact h'
  | move hallowed _ ih => exact .move hallowed (ih h')

/-- What every allowed move keeps holds after reading. -/
theorem keeps {P : Reading → Prop} (h : History scope s moves t)
    (hmove : ∀ s move, Allowed scope s move → P s → P (move.after s)) (hs : P s) : P t := by
  induction h with
  | done => exact hs
  | move hallowed _ ih => exact ih (hmove _ _ hallowed hs)

theorem source (h : History scope s moves t) : t.source = s.source :=
  h.keeps (P := fun u => u.source = s.source)
    (fun u move _ hu => by cases move <;> exact hu) rfl

theorem definitions (h : History scope s moves t) : s.definitions <+: t.definitions := by
  refine h.keeps (P := fun u => s.definitions <+: u.definitions) ?_ List.prefix_rfl
  intro u move _ hu
  cases move with
  | define name data => exact hu.trans (prefix_putNew _ _ _)
  | _ => exact hu

theorem size_le (h : History scope s moves t) : s.graph.size ≤ t.graph.size := by
  refine h.keeps (P := fun u => s.graph.size ≤ u.graph.size) ?_ (Nat.le_refl _)
  intro u move _ hu
  cases move <;> simp only [Move.after, enter, Graph.size_push, Graph.size_modify] <;> omega

/-- Definitions get their nodes in the order in which they are entered. -/
theorem named (h : History scope s moves t) :
    t.named.map (·.1) = s.named.map (·.1) ++ entered moves := by
  induction h with
  | done => simp [entered]
  | @move s t move moves hallowed hrest ih =>
    rw [ih]
    cases move <;> simp [entered, List.filterMap_cons, Move.entered?, Move.after, enter]

theorem covers (h : History scope s moves t) (hs : scope.Covers s) : scope.Covers t := by
  refine h.keeps (P := scope.Covers) ?_ hs
  intro u move hallowed hu
  cases move with
  | enter name =>
    refine ⟨hu.basis, ?_, hu.definitions, hu.undeclared⟩
    intro other hother
    obtain ⟨id, hid⟩ := Entries.has_iff_get?.mp hother
    rw [Move.after, get?_named_enter, Option.or_eq_some_iff] at hid
    rcases hid with hold | ⟨-, hnew⟩
    · exact hu.declared (Entries.has_iff_get?.mpr ⟨id, hold⟩)
    · rw [Option.ite_none_right_eq_some] at hnew
      exact hnew.1 ▸ hallowed.2
  | define name data =>
    have hmono : ∀ {other}, Entries.has u.definitions other = true →
        Entries.has (Entries.putNew u.definitions name data) other = true := fun hother =>
      Entries.has_iff.mpr (Entries.mem_keys_putNew.mpr (Or.inr (Entries.has_iff.mp hother)))
    refine ⟨hu.basis.trans (prefix_putNew _ _ _), fun hother => hmono (hu.declared hother), ?_, ?_⟩
    · intro other value hother
      change Entries.get? (Entries.putNew u.definitions name data) other = some value at hother
      unfold Entries.putNew at hother
      split at hother
      · exact hu.definitions hother
      · rw [Entries.get?_append, Option.or_eq_some_iff] at hother
        rcases hother with hold | ⟨-, hnew⟩
        · exact hu.definitions hold
        · obtain ⟨-, rfl⟩ := List.mem_singleton.mp (Entries.mem_of_get? hnew)
          exact hallowed.2
    · intro members ref hschema href hmissing
      refine hu.undeclared hschema href (Bool.eq_false_iff.mpr fun hhas => ?_)
      exact Bool.false_ne_true (hmissing.symm.trans (hmono hhas))
  | _ => exact ⟨hu.basis, hu.declared, hu.definitions, hu.undeclared⟩

end History

/-! ### Courses -/

/-- Moves that lead from a state to another one and fill no node but those that they put into the
graph, none of them twice. -/
structure Course (scope : Scope) (s : Reading) (moves : List Move) (t : Reading) : Prop where
  history : History scope s moves t
  once : (filled moves).Nodup
  new : ∀ id ∈ filled moves, s.graph.size ≤ id ∧ id < t.graph.size

theorem filled_append (moves more : List Move) :
    filled (moves ++ more) = filled moves ++ filled more :=
  List.filterMap_append

namespace Course

variable {scope : Scope} {s t u : Reading} {moves more : List Move} {next : Move} {id : NodeId}

theorem refl (s : Reading) : Course scope s [] s :=
  ⟨.done, List.nodup_nil, fun _ h => by cases h⟩

theorem append (h : Course scope s moves t) (h' : Course scope t more u) :
    Course scope s (moves ++ more) u := by
  refine ⟨h.history.append h'.history, ?_, ?_⟩
  · rw [filled_append]
    refine List.nodup_append.mpr ⟨h.once, h'.once, ?_⟩
    rintro id hid other hother rfl
    exact absurd (h.new id hid).2 (Nat.not_lt_of_le (h'.new id hother).1)
  · intro id hid
    rw [filled_append, List.mem_append] at hid
    rcases hid with hfirst | hlast
    · exact ⟨(h.new id hfirst).1, Nat.lt_of_lt_of_le (h.new id hfirst).2 h'.history.size_le⟩
    · exact ⟨Nat.le_trans h.history.size_le (h'.new id hlast).1, (h'.new id hlast).2⟩

/-- A move that fills no node. -/
theorem move (h : Course scope s moves t) (hallowed : Allowed scope t next)
    (hmove : next.filled? = none) : Course scope s (moves ++ [next]) (next.after t) := by
  refine h.append ⟨.move hallowed .done, ?_, ?_⟩ <;> simp [filled, hmove]

/-- A move that begins to fill a node. -/
theorem fill (h : Course scope s moves t) (hallowed : Allowed scope t next)
    (hmove : next.filled? = some id) (hnew : s.graph.size ≤ id) (hlt : id < t.graph.size)
    (hfresh : id ∉ filled moves) : Course scope s (moves ++ [next]) (next.after t) := by
  have hlast := History.move hallowed .done
  have hfilled : filled (moves ++ [next]) = filled moves ++ [id] := by
    simp [filled, hmove]
  refine ⟨h.history.append hlast, ?_, ?_⟩
  · rw [hfilled]
    refine List.nodup_append.mpr ⟨h.once, by simp, ?_⟩
    rintro other hother _ hsame rfl
    exact hfresh (List.mem_singleton.mp hsame ▸ hother)
  · intro other hother
    rw [hfilled, List.mem_append, List.mem_singleton] at hother
    rcases hother with hold | rfl
    · exact ⟨(h.new other hold).1, Nat.lt_of_lt_of_le (h.new other hold).2 hlast.size_le⟩
    · exact ⟨hnew, Nat.lt_of_lt_of_le hlt hlast.size_le⟩

end Course

end ApiClients.Reading
