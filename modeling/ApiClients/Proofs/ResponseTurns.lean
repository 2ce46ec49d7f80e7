import ApiClients.Proofs.OperationKeys
import ApiClients.Proofs.Lineage

/-!
# The responses of a document in turn

The responses of a document are read one after the other: path by path, in a path in the order of
the methods, in an operation in that of its codes (`declaredResponses`).  When the turn of a
response comes, all definitions have their nodes (`Filed`), those of earlier responses too.  So its
schema either gets a definition of its own, whose node is put into the graph in this turn, or it is
read as any other schema and leaves the definitions as they are (`Turn.Taken`).  What is read
between two turns, such as the parameters of an operation, leaves them as they are, too.  So the
reading of all operations is a sequence of turns (`givesTurns_operations`), and what holds of the
definitions after it is shown by induction on that.
-/

namespace ApiClients

theorem Entries.has_eq_false_iff {κ α : Type} [DecidableEq κ] {entries : List (κ × α)} {key : κ} :
    has entries key = false ↔ get? entries key = none := by
  rw [← Bool.not_eq_true, has_iff_get?, Option.eq_none_iff_forall_ne_some, not_exists]

/-- The nodes that the responses of an operation have for their schemas. -/
def Operation.responseSchemas (operation : Operation) : List (Option NodeId) :=
  (operation.responses.getD []).map fun entry => entry.2.bind (·.schema)

namespace Reading

/-! ### The responses that a document declares -/

/-- The members of a response, a reference followed once. -/
def responseMembers (document value : Json) : List (String × Json) :=
  match Json.dereference document value with
  | .ok (.obj members) => members
  | _ => []

/-- The schema of a response: under its keyword, or the one that represents its content. -/
def responseData (members : List (String × Json)) : Json :=
  match Entries.get? members "schema" with
  | some data => data
  | none =>
    match representative? (Json.field members "content") with
    | .ok (some media) => (mediaSchema media).toOption.getD .null
    | _ => .null

/-- A response as a document declares it, with the id of its operation. -/
structure DeclaredResponse where
  operationId : Option String
  code : String
  data : Json
  deriving DecidableEq, Repr

/-- The name of the definition that the schema of a response gets if the name is free: there is one
for an object with properties that is spelled out under a success code, in an operation with an
id. -/
def DeclaredResponse.name? (response : DeclaredResponse) : Option Json :=
  match response.operationId with
  | none => none
  | some id =>
    if isPromoted response.code response.data && !id.isEmpty then some (.str (responseName id))
    else none

/-- The id of an operation. -/
def idOf (operation : List (String × Json)) : Option String :=
  match Json.field operation "operationId" with
  | .null => none
  | id => some id.plain

/-- A response that an operation declares under a code. -/
def declaredResponse (document : Json) (operation : List (String × Json)) (code : String)
    (value : Json) : DeclaredResponse :=
  ⟨idOf operation, code, responseData (responseMembers document value)⟩

/-- The responses that an operation declares. -/
def responsesOf (document : Json) (operation : List (String × Json)) : List DeclaredResponse :=
  match Json.field operation "responses" with
  | .obj entries => entries.map fun entry => declaredResponse document operation entry.1 entry.2
  | _ => []

/-- The responses that an item of the paths declares, method by method. -/
def responsesAt (document item : Json) : List DeclaredResponse :=
  (methods.filterMap (operationAt? item)).flatMap (responsesOf document)

/-- The responses that a document declares, in the order in which they are read. -/
def declaredResponses (document : Json) : List DeclaredResponse :=
  (pathItems document).flatMap fun entry => responsesAt document entry.2

theorem DeclaredResponse.name?_eq_some {response : DeclaredResponse} {name : Json} :
    response.name? = some name ↔ ∃ id, response.operationId = some id ∧ id.isEmpty = false
      ∧ isPromoted response.code response.data = true ∧ name = .str (responseName id) := by
  unfold name?
  cases response.operationId with
  | none => simp
  | some id =>
    simp only [Option.ite_none_right_eq_some, Bool.and_eq_true, Bool.not_eq_true',
      Option.some.injEq, exists_eq_left']
    constructor
    · rintro ⟨⟨hcode, hgiven⟩, rfl⟩
      exact ⟨hgiven, hcode, rfl⟩
    · rintro ⟨hgiven, hcode, rfl⟩
      exact ⟨⟨hcode, hgiven⟩, rfl⟩

/-! ### Turns -/

/-- A definition is put behind the others. -/
def declare (s : Reading) (name data : Json) : Reading :=
  { s with definitions := s.definitions ++ [(name, data)] }

/-- The turn of a response: the state before, the node that its schema has got, if any, and the
state after. -/
structure Turn where
  response : DeclaredResponse
  before : Reading
  made : Option NodeId
  after : Reading

namespace Turn

/-- The schema of a response is read as any other schema, and the definitions stay as they are. -/
structure Inline (turn : Turn) : Prop where
  run : runStep (schema turn.response.data) turn.before = (.ok turn.made, turn.after)
  after : turn.before.After turn.after
  definitions : turn.after.definitions = turn.before.definitions
  named : turn.after.named = turn.before.named

/-- The schema of a response is read as a definition of its own, which is put behind the others and
gets a node. -/
structure Promotes (turn : Turn) (name : Json) (id : NodeId) : Prop where
  made : turn.made = some id
  run : runStep (namedSchema name) (turn.before.declare name turn.response.data)
    = (.ok id, turn.after)
  after : turn.before.After turn.after
  definitions : turn.after.definitions
    = turn.before.definitions ++ [(name, turn.response.data)]
  named : turn.after.named = turn.before.named ++ [(name, id)]

/-- What is done in a turn depends on whether the name of the response is free. -/
inductive Taken (turn : Turn) : Prop
  | inline (h : turn.Inline) (hname : ∀ name, turn.response.name? = some name →
      Entries.has turn.before.named name = true)
  | promoted {name : Json} {id : NodeId} (h : turn.Promotes name id)
      (hname : turn.response.name? = some name) (hfree : Entries.has turn.before.named name = false)

section

variable {turn : Turn} {name : Json} {id : NodeId}

theorem Taken.after (h : turn.Taken) : turn.before.After turn.after := by
  cases h with
  | inline h _ => exact h.after
  | promoted h _ _ => exact h.after

/-- A response whose name is free gets the definition. -/
theorem Taken.promotes (h : turn.Taken) (hname : turn.response.name? = some name)
    (hfree : Entries.has turn.before.named name = false) : ∃ id, turn.Promotes name id := by
  cases h with
  | inline _ htaken =>
    rw [htaken name hname] at hfree
    cases hfree
  | @promoted own id h hown _ =>
    obtain rfl : own = name := Option.some.inj (hown.symm.trans hname)
    exact ⟨id, h⟩

/-- A response whose name is not free, or that has none, gets no definition. -/
theorem Taken.inlines (h : turn.Taken)
    (hnot : ∀ name, ¬ (turn.response.name? = some name
      ∧ Entries.has turn.before.named name = false)) : turn.Inline := by
  cases h with
  | inline h _ => exact h
  | promoted _ hname hfree => exact absurd ⟨hname, hfree⟩ (hnot _)

theorem Promotes.get? (h : turn.Promotes name id)
    (hfree : Entries.has turn.before.named name = false) :
    Entries.get? turn.after.named name = some id := by
  rw [h.named, Entries.get?_append, Entries.has_eq_false_iff.mp hfree]
  simp [Entries.get?]

end

end Turn

/-- Reading has come from a state to another one with some responses having had their turns. -/
inductive Turns (start : Reading) : List Turn → Reading → Prop
  | none : Turns start [] start
  /-- Something is read that leaves the definitions as they are. -/
  | rest {turns : List Turn} {s t : Reading} (h : Turns start turns s) (hafter : s.After t)
      (hdefinitions : t.definitions = s.definitions) (hnamed : t.named = s.named) :
      Turns start turns t
  | turn {turns : List Turn} {turn : Turn} (h : Turns start turns turn.before)
      (htaken : turn.Taken) : Turns start (turns ++ [turn]) turn.after

section

variable {start s t : Reading} {turns earlier later : List Turn} {turn : Turn} {name data : Json}
  {id : NodeId} {made : Option NodeId}

theorem Turns.after (h : Turns start turns t) (hstart : start.Sound) : start.After t := by
  induction h with
  | none => exact hstart.after
  | rest _ hafter _ _ ih => exact ih.trans hafter
  | turn _ htaken ih => exact ih.trans htaken.after

/-- The names of definitions are those from the start and those that responses ask for. -/
theorem Turns.has_named (h : Turns start turns t) :
    Entries.has t.named name = true ↔ Entries.has start.named name = true
      ∨ ∃ turn ∈ turns, turn.response.name? = some name := by
  induction h with
  | none => simp
  | rest _ _ _ hnamed ih => rw [hnamed, ih]
  | @turn turns turn _ htaken ih =>
    have hlast : Entries.has turn.after.named name = true
        ↔ Entries.has turn.before.named name = true ∨ turn.response.name? = some name := by
      cases htaken with
      | inline h hname =>
        rw [h.named]
        refine ⟨Or.inl, ?_⟩
        rintro (hold | hown)
        · exact hold
        · exact hname name hown
      | promoted h hname _ =>
        rw [h.named, hname, Entries.has_iff, Entries.has_iff, List.map_append, List.mem_append,
          List.map_singleton, List.mem_singleton, Option.some.injEq, eq_comm (a := name)]
    simp only [hlast, ih, List.mem_append, List.mem_singleton, or_and_right, exists_or,
      exists_eq_left, or_assoc]

/-- The turn of a response in the middle. -/
theorem Turns.split (h : Turns start (earlier ++ turn :: later) t) :
    Turns start earlier turn.before ∧ turn.Taken ∧ turn.after.After t := by
  generalize hall : earlier ++ turn :: later = all at h
  induction h generalizing later with
  | none => simp at hall
  | rest _ hafter _ _ ih =>
    obtain ⟨hearlier, htaken, hlater⟩ := ih hall
    exact ⟨hearlier, htaken, hlater.trans hafter⟩
  | @turn turns last h htaken ih =>
    -- the turn asked for is the last one, or one of those before
    rcases later.eq_nil_or_concat with rfl | ⟨between, other, rfl⟩
    · obtain ⟨rfl, hsame⟩ := List.append_inj' hall rfl
      obtain rfl := List.singleton_inj.mp hsame
      exact ⟨h, htaken, htaken.after.1.after⟩
    · rw [List.concat_eq_append, ← List.cons_append, ← List.append_assoc] at hall
      obtain ⟨hturns, -⟩ := List.append_inj' hall rfl
      obtain ⟨hearlier, htaken', hlater⟩ := ih hturns
      exact ⟨hearlier, htaken', hlater.trans htaken.after⟩

/-- What has got its node since the start has got it in a turn. -/
theorem Turns.promoted (h : Turns start turns t) (hstart : Entries.has start.named name = false)
    (hname : Entries.get? t.named name = some id) :
    ∃ earlier turn later, turns = earlier ++ turn :: later ∧ turn.Promotes name id
      ∧ turn.response.name? = some name ∧ Entries.has turn.before.named name = false := by
  induction h with
  | none =>
    rw [Entries.has_eq_false_iff.mp hstart] at hname
    cases hname
  | rest _ _ _ hnamed ih => exact ih (hnamed ▸ hname)
  | @turn turns turn _ htaken ih =>
    have hearlier : Entries.get? turn.before.named name = some id →
        ∃ earlier other later, turns ++ [turn] = earlier ++ other :: later
          ∧ other.Promotes name id ∧ other.response.name? = some name
          ∧ Entries.has other.before.named name = false := by
      intro hbefore
      obtain ⟨earlier, other, later, rfl, hother⟩ := ih hbefore
      exact ⟨earlier, other, later ++ [turn], by simp, hother⟩
    cases htaken with
    | inline h _ => exact hearlier (h.named ▸ hname)
    | @promoted own made h hown hfree =>
      rw [h.named, Entries.get?_append, Option.or_eq_some_iff] at hname
      rcases hname with hbefore | ⟨-, hnew⟩
      · exact hearlier hbefore
      · obtain ⟨rfl, rfl⟩ := Prod.mk.inj (List.mem_singleton.mp (Entries.mem_of_get? hnew))
        exact ⟨turns, turn, [], rfl, h, hown, hfree⟩

/-! ### One turn -/

/-- All definitions have their nodes, and nothing else has a name. -/
structure Filed (s : Reading) : Prop where
  sound : s.Sound
  alike : ∀ name, Entries.has s.named name = Entries.has s.definitions name

theorem reads_all (depth : Nat) : Reads .all (fun _ _ _ => True) (schemaTo depth) :=
  reads_schemaTo (admits_all .null).zero (admits_all .null).falls depth

theorem Filed.covers (h : Filed s) : Scope.all.Covers s :=
  Scope.covers_all fun hname => (h.alike _).symm.trans hname

/-- A name that is new in a table of definitions is the name of a definition. -/
theorem has_of_named_append {more : List (Json × NodeId)} (ht : t.Sound)
    (hcovers : Scope.all.Covers t) (hnamed : t.named = s.named ++ more) {entry : Json × NodeId}
    (hentry : entry ∈ more) :
    Entries.has t.definitions entry.1 = true ∧ Entries.has s.named entry.1 = false := by
  have hdistinct := ht.distinct
  rw [hnamed, List.map_append, List.nodup_append] at hdistinct
  have hmem : entry.1 ∈ more.map (·.1) := List.mem_map_of_mem hentry
  refine ⟨hcovers.declared (Entries.has_iff.mpr ?_), Bool.eq_false_iff.mpr fun hold => ?_⟩
  · rw [hnamed, List.map_append]
    exact List.mem_append_right _ hmem
  · exact hdistinct.2.2 _ (Entries.has_iff.mp hold) _ hmem rfl

/-- A schema that is read leaves the definitions as they are. -/
theorem Filed.schema (h : Filed s) (hrun : runStep (schema data) s = (.ok made, t)) :
    s.After t ∧ t.definitions = s.definitions ∧ t.named = s.named := by
  unfold Reading.schema at hrun
  rw [runStep_bind_of_ok (runStep_get s)] at hrun
  obtain ⟨hgoes, -⟩ := ((reads_all _).leads h.sound h.covers [] trivial s rfl).1 _ _ hrun
  refine ⟨hgoes.after, hgoes.definitions, ?_⟩
  -- a new name would be that of a definition, and all of them have theirs
  obtain ⟨more, hmore⟩ := hgoes.after.2.named
  cases more with
  | nil => rw [← hmore, List.append_nil]
  | cons entry more =>
    obtain ⟨hhas, hnew⟩ := has_of_named_append hgoes.after.1 (hgoes.covers h.covers) hmore.symm
      List.mem_cons_self
    rw [hgoes.definitions, ← h.alike, hnew] at hhas
    cases hhas

theorem eq_singleton_of_keys {entries : List (Json × NodeId)}
    (hdistinct : (entries.map (·.1)).Nodup) (hkeys : ∀ entry ∈ entries, entry.1 = name)
    (hname : Entries.get? entries name = some id) : entries = [(name, id)] := by
  cases entries with
  | nil => cases hname
  | cons first rest =>
    obtain rfl : first.1 = name := hkeys first List.mem_cons_self
    cases rest with
    | nil =>
      obtain rfl : first.2 = id := by simpa [Entries.get?] using hname
      rfl
    | cons second rest =>
      rw [List.map_cons, List.nodup_cons] at hdistinct
      have hsame : second.1 = first.1 := hkeys second (by simp)
      exact absurd (by simp [hsame]) hdistinct.1

theorem Filed.covers_declare (h : Filed s) (name data : Json) :
    Scope.all.Covers (s.declare name data) := by
  refine Scope.covers_all fun {other} hother => ?_
  have hold : Entries.has s.definitions other = true := h.alike other ▸ hother
  exact Entries.has_iff.mpr (by simp [declare, Entries.has_iff.mp hold])

theorem After.declare (h : s.After t) (name data : Json) : s.After (t.declare name data) :=
  ⟨⟨h.1.known, h.1.owned, h.1.distinct⟩, ⟨h.2.source,
    h.2.definitions.trans (List.prefix_append _ _), h.2.named, h.2.size, h.2.kept, h.2.fresh⟩⟩

/-- A definition that is put behind the others gets its node when it is read, and no other one
does. -/
theorem Filed.namedSchema (h : Filed s) (hname : Entries.has s.named name = false)
    (hrun : runStep (Reading.namedSchema name) (s.declare name data) = (.ok id, t)) :
    s.After t ∧ t.definitions = s.definitions ++ [(name, data)]
      ∧ t.named = s.named ++ [(name, id)] := by
  have hdeclare := h.sound.after.declare name data
  have hcovers := h.covers_declare name data
  have hdeclared : Entries.has (s.declare name data).definitions name = true :=
    Entries.has_iff.mpr (by simp [declare])
  unfold Reading.namedSchema at hrun
  rw [runStep_bind_of_ok (runStep_get _)] at hrun
  obtain ⟨hgoes, -⟩ :=
    ((reads_all _).definition hdeclare.1 hcovers hdeclared _ rfl).1 _ _ hrun
  have hfound : Entries.get? t.named name = some id := by
    have hafter := (definition_after (careful_schemaTo ((s.declare name data).depthBound .null))
      name hdeclare.1).2
    rw [hrun] at hafter
    exact hafter id rfl
  refine ⟨hdeclare.trans hgoes.after, hgoes.definitions, ?_⟩
  obtain ⟨more, hmore⟩ : s.named <+: t.named := hgoes.after.2.named
  -- whatever has got its name on the way is a definition, and all but the new one had theirs
  have hkeys : ∀ entry ∈ more, entry.1 = name := by
    intro entry hentry
    obtain ⟨hhas, hnew⟩ := has_of_named_append hgoes.after.1 (hgoes.covers hcovers) hmore.symm
      hentry
    rw [h.alike] at hnew
    rw [hgoes.definitions, declare, Entries.has_iff, List.map_append, List.mem_append,
      ← Entries.has_iff, hnew] at hhas
    simpa using hhas
  have hdistinct : (more.map (·.1)).Nodup := by
    have hall := hgoes.after.1.distinct
    rw [← hmore, List.map_append] at hall
    exact hall.of_append_right
  rw [← hmore, Entries.get?_append, Entries.has_eq_false_iff.mp hname, Option.none_or] at hfound
  rw [← hmore, eq_singleton_of_keys hdistinct hkeys hfound]

theorem Turns.filed (h : Turns start turns t) (hstart : Filed start) : Filed t := by
  refine ⟨(h.after hstart.sound).1, ?_⟩
  induction h with
  | none => exact hstart.alike
  | rest _ _ hdefinitions hnamed ih => rwa [hdefinitions, hnamed]
  | turn _ htaken ih =>
    intro name
    cases htaken with
    | inline h _ => rw [h.named, h.definitions, ih]
    | promoted h _ _ =>
      have hbefore := ih name
      unfold Entries.has at hbefore ⊢
      rw [h.named, h.definitions, List.any_append, List.any_append, hbefore]
      rfl

end

/-! ### Reading gives responses their turns -/

/-- A step gives some responses their turns; its result tells the nodes that they have got. -/
def GivesTurns {α : Type} (start : Reading) (responses : List DeclaredResponse)
    (nodes : α → List (Option NodeId)) (step : ReadingM α) : Prop :=
  ∀ ⦃turns s t a⦄, Turns start turns s → runStep step s = (.ok a, t) →
    ∃ more, more.map (·.response) = responses ∧ more.map (·.made) = nodes a
      ∧ Turns start (turns ++ more) t

section

variable {α β : Type} {start s t : Reading} {responses : List DeclaredResponse}
  {nodes : α → List (Option NodeId)} {operation : List (String × Json)}

/-- What is made of a result has the nodes of the result. -/
theorem GivesTurns.return {step : ReadingM α} {nodes' : β → List (Option NodeId)} {f : α → β}
    (h : GivesTurns start responses nodes step) (hf : ∀ a, nodes' (f a) = nodes a) :
    GivesTurns start responses nodes' (do return f (← step)) := by
  intro turns s t b hs hrun
  obtain ⟨a, u, hstep, hrest⟩ := runStep_bind_ok.mp hrun
  cases hrest
  obtain ⟨more, hresponses, hmade, ht⟩ := h hs hstep
  exact ⟨more, hresponses, hmade.trans (hf a).symm, ht⟩

/-- Something is read before, and leaves the definitions as they are. -/
theorem GivesTurns.then {first : ReadingM α} {next : α → ReadingM β}
    {nodes : β → List (Option NodeId)}
    (hfirst : ∀ turns,
      Leads (Turns start turns) (fun _ => Turns start turns) (fun _ _ => True) first)
    (h : ∀ a, GivesTurns start responses nodes (next a)) :
    GivesTurns start responses nodes (first >>= next) := by
  intro turns s t b hs hrun
  obtain ⟨a, u, hread, hrest⟩ := runStep_bind_ok.mp hrun
  exact h a ((hfirst turns s hs).1 a u hread) hrest

/-- Steps that give their responses turns one after the other. -/
theorem GivesTurns.mapM {f : β → ReadingM α} {bs : List β}
    {responses : β → List DeclaredResponse}
    (h : ∀ b ∈ bs, GivesTurns start (responses b) nodes (f b)) :
    GivesTurns start (bs.flatMap responses) (fun as => as.flatMap nodes) (bs.mapM f) := by
  intro turns s t as hs hrun
  induction bs generalizing turns s as with
  | nil =>
    cases hrun
    exact ⟨[], rfl, rfl, by rwa [List.append_nil]⟩
  | cons b bs ih =>
    rw [List.mapM_cons] at hrun
    obtain ⟨a, u, hfirst, hrun⟩ := runStep_bind_ok.mp hrun
    obtain ⟨rest, v, hrest, hrun⟩ := runStep_bind_ok.mp hrun
    cases hrun
    obtain ⟨first, hresponses, hmade, hu⟩ := h b List.mem_cons_self hs hfirst
    obtain ⟨more, hresponses', hmade', ht⟩ :=
      ih (fun other hother => h other (List.mem_cons_of_mem _ hother)) hu hrest
    refine ⟨first ++ more, ?_, ?_, by rwa [← List.append_assoc]⟩
    · rw [List.map_append, hresponses, hresponses', List.flatMap_cons]
    · rw [List.map_append, hmade, hmade']
      exact List.flatMap_cons.symm

/-- Parameters are read between turns. -/
theorem answers_turns (hstart : Filed start) (turns : List Turn) :
    Answers start.source (Turns start turns) fun _ _ => True := by
  refine ⟨fun hs => (hs.after hstart.sound).2.source, fun event hs => ?note, fun _ => trivial,
    fun {data} _ s hs => ⟨fun made t hrun => ?schema, fun _ _ _ => trivial⟩,
    fun {members} _ _ s hs => ⟨fun made t hrun => ?inline, fun _ _ _ => trivial⟩⟩
  case note => exact hs.rest ((hs.filed hstart).sound.after.note _) rfl rfl
  case schema =>
    obtain ⟨hafter, hdefinitions, hnamed⟩ := (hs.filed hstart).schema hrun
    exact hs.rest hafter hdefinitions hnamed
  case inline =>
    obtain ⟨hafter, hdefinitions, hnamed⟩ := (hs.filed hstart).schema hrun
    refine ⟨hs.rest hafter hdefinitions hnamed, ?_⟩
    rintro id rfl
    have hnew := (schema_of_plain (hs.filed hstart).sound (plain_inline members)).2
    rw [hrun] at hnew
    exact hs.rest (hafter.change (hnew id rfl) fun _ => rfl) hdefinitions hnamed

theorem givesTurns_responseSchema (hstart : Filed start) (response : DeclaredResponse) :
    GivesTurns start [response] (fun made => [made])
      (responseSchema response.code response.data response.operationId) := by
  intro turns s t made hs hrun
  have hfiled := hs.filed hstart
  refine ⟨[⟨response, s, made, t⟩], rfl, rfl, .turn hs ?_⟩
  have hinline : runStep (schema response.data) s = (.ok made, t) →
      (∀ name, response.name? = some name → Entries.has s.named name = true) →
      Turn.Taken ⟨response, s, made, t⟩ := by
    intro hrun hname
    obtain ⟨hafter, hdefinitions, hnamed⟩ := hfiled.schema hrun
    exact .inline ⟨hrun, hafter, hdefinitions, hnamed⟩ hname
  unfold responseSchema at hrun
  cases hid : response.operationId with
  | none =>
    rw [hid] at hrun
    refine hinline hrun fun name hname => ?_
    obtain ⟨id, hsome, -⟩ := DeclaredResponse.name?_eq_some.mp hname
    rw [hid] at hsome
    cases hsome
  | some id =>
    rw [hid] at hrun
    dsimp only at hrun
    rw [runStep_bind_of_ok (runStep_get s)] at hrun
    split at hrun
    · rename_i hpromoted
      simp only [Bool.and_eq_true, Bool.not_eq_true'] at hpromoted
      obtain ⟨⟨hcode, hgiven⟩, hfree⟩ := hpromoted
      -- a name that is free has no definition either, so one is added
      obtain ⟨_, u, hmodify, hrun⟩ := runStep_bind_ok.mp hrun
      obtain rfl : s.declare (.str (responseName id)) response.data = u := by
        cases hmodify
        simp [declare, Entries.putNew, ← hfiled.alike, hfree]
      obtain ⟨node, hread, rfl⟩ := runStep_map_ok.mp hrun
      obtain ⟨hafter, hdefinitions, hnamed⟩ := hfiled.namedSchema hfree hread
      exact .promoted ⟨rfl, hread, hafter, hdefinitions, hnamed⟩
        (DeclaredResponse.name?_eq_some.mpr ⟨id, hid, hgiven, hcode, rfl⟩) hfree
    · rename_i hpromoted
      refine hinline hrun fun name hname => ?_
      obtain ⟨other, hother, hgiven, hcode, rfl⟩ := DeclaredResponse.name?_eq_some.mp hname
      obtain rfl : id = other := Option.some.inj (hid.symm.trans hother)
      simpa [hcode, hgiven] using hpromoted

theorem responseOf_ok {operationId : Option String} {code : String}
    {members : List (String × Json)} {found : Response}
    (h : runStep (Serves.responseOf operationId code members) s = (.ok found, t)) :
    runStep (responseSchema code (responseData members) operationId) s
      = (.ok found.schema, t) := by
  unfold Serves.responseOf at h
  obtain ⟨_, -, h⟩ := runStep_lift_bind h
  have hdone : ∀ {data : Json} {made : Option NodeId → Response},
      (∀ schema, (made schema).schema = schema) →
      runStep (do return made (← responseSchema code data operationId)) s = (.ok found, t) →
      runStep (responseSchema code data operationId) s = (.ok found.schema, t) := by
    intro data made hmade hrun
    obtain ⟨schema, v, hschema, hrest⟩ := runStep_bind_ok.mp hrun
    cases hrest
    rwa [hmade]
  unfold responseData
  cases hdata : Entries.get? members "schema" with
  | some data =>
    rw [hdata] at h
    exact hdone (fun _ => rfl) h
  | none =>
    rw [hdata] at h
    obtain ⟨media, hmedia, h⟩ := runStep_lift_bind h
    rw [hmedia]
    cases media with
    | none => exact hdone (fun _ => rfl) h
    | some media =>
      obtain ⟨data, hdata, h⟩ := runStep_lift_bind h
      dsimp only
      rw [hdata]
      exact hdone (fun _ => rfl) h

/-- All that reading a response does to the state is reading its schema. -/
theorem response_ok {operationId : Option String} {code : String} {value : Json} {found : Response}
    (h : runStep (response operationId code value) s = (.ok found, t)) :
    runStep (responseSchema code (responseData (responseMembers s.source value)) operationId) s
      = (.ok found.schema, t) := by
  unfold response at h
  rw [runStep_bind_of_ok (runStep_get s)] at h
  obtain ⟨followed, hfollowed, h⟩ := runStep_lift_bind h
  refine responseOf_ok ?_
  unfold responseMembers
  rw [hfollowed]
  cases followed <;> exact h

theorem givesTurns_response (hstart : Filed start) (code : String) (value : Json) :
    GivesTurns start [declaredResponse start.source operation code value] (fun found => [found.schema])
      (response (idOf operation) code value) := by
  intro turns s t found hs hrun
  have hread := response_ok hrun
  rw [(hs.after hstart.sound).2.source] at hread
  exact givesTurns_responseSchema hstart (declaredResponse start.source operation code value) hs hread

theorem givesTurns_operationResponses (hstart : Filed start) :
    GivesTurns start (responsesOf start.source operation)
      (fun found => (found.getD []).map fun entry => entry.2.bind (·.schema))
      (operationResponses (idOf operation) (Json.field operation "responses")) := by
  unfold responsesOf
  cases Json.field operation "responses" with
  | obj entries =>
    have hentry : ∀ entry ∈ entries,
        GivesTurns start [declaredResponse start.source operation entry.1 entry.2]
          (fun found : String × Option Response => [found.2.bind (·.schema)])
          (do return (entry.1, some (← response (idOf operation) entry.1 entry.2))) :=
      fun entry _ => (givesTurns_response hstart entry.1 entry.2).return fun _ => rfl
    have hall := GivesTurns.mapM hentry
    rw [← List.map_eq_flatMap] at hall
    show GivesTurns start _ _ (some <$> entries.mapM _)
    rw [map_eq_pure_bind]
    exact hall.return fun found => List.map_eq_flatMap
  | _ =>
    intro turns s t found hs hrun
    cases hrun
    exact ⟨[], rfl, rfl, by rwa [List.append_nil]⟩

theorem givesTurns_operation (hstart : Filed start) {shared : Json}
    (hoperation : Declares start.source operation shared) (path method : String) :
    GivesTurns start (responsesOf start.source operation) Operation.responseSchemas
      (Reading.operation path method operation shared) := by
  refine GivesTurns.then (fun turns => ?_) fun parameters =>
    (givesTurns_operationResponses hstart).return fun responses => rfl
  exact ((answers_turns hstart turns).operationParameters hoperation).mono (fun _ hs => hs)
    (fun _ _ hs => hs.1) fun _ _ hs => hs

theorem responsesAt_obj (document : Json) (item : List (String × Json)) :
    (methods.filterMap fun method =>
        (operationAt? (.obj item) method).map (method, ·)).flatMap
          (fun entry => responsesOf document entry.2)
      = responsesAt document (.obj item) := by
  have hsnd : (methods.filterMap fun method =>
      (operationAt? (.obj item) method).map (method, ·)).map (·.2)
        = methods.filterMap (operationAt? (.obj item)) := by
    simp [List.map_filterMap, Function.comp_def]
  rw [responsesAt, ← hsnd, List.flatMap_map]

theorem givesTurns_pathOperations (hstart : Filed start) {members paths : List (String × Json)}
    (hmembers : Json.membersOf start.source = .ok members)
    (hpaths : Json.fields (Json.field members "paths") = .ok paths) {path : String} {item : Json}
    (hitem : (path, item) ∈ paths) :
    GivesTurns start (responsesAt start.source item)
      (fun found => found.flatMap Operation.responseSchemas) (pathOperations path item) := by
  cases item with
  | obj item =>
    rw [pathOperations_obj, ← responsesAt_obj]
    refine GivesTurns.mapM fun entry hentry => ?_
    obtain ⟨method, hmethod, hfound⟩ := List.mem_filterMap.mp hentry
    obtain ⟨operation, hat, rfl⟩ := Option.map_eq_some_iff.mp hfound
    obtain ⟨_, heq, hoperation⟩ := operationAt?_eq_some.mp hat
    cases heq
    exact givesTurns_operation hstart (.method hmembers hpaths hitem hmethod hoperation) path method
  | _ =>
    intro turns s t found hs hrun
    cases hrun
    exact ⟨[], by simp [responsesAt, operationAt?], rfl, by rwa [List.append_nil]⟩

/-- All responses of a document get their turns, in the order in which it declares them. -/
theorem givesTurns_operations (hstart : Filed start) :
    GivesTurns start (declaredResponses start.source)
      (fun found => found.flatMap Operation.responseSchemas) operations := by
  intro turns s t found hs hrun
  unfold operations at hrun
  rw [runStep_bind_of_ok (runStep_get s), (hs.after hstart.sound).2.source] at hrun
  obtain ⟨members, hmembers, hrun⟩ := runStep_lift_bind hrun
  obtain ⟨items, hitems, hrun⟩ := runStep_lift_bind hrun
  obtain ⟨groups, u, hgroups, hrun⟩ := runStep_bind_ok.mp hrun
  cases hrun
  obtain rfl := fields_eq_pathItems hmembers hitems
  obtain ⟨more, hresponses, hmade, ht⟩ := GivesTurns.mapM
    (fun entry hentry => givesTurns_pathOperations hstart hmembers hitems hentry) hs hgroups
  refine ⟨more, hresponses, hmade.trans ?_, ht⟩
  simp only [List.flatten_eq_flatMap, List.flatMap_assoc, id]

end

end Reading

end ApiClients
