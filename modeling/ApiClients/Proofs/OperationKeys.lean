import ApiClients.Proofs.Passages
import ApiClients.Proofs.Passes
import Mathlib.Data.List.Flatten
import Mathlib.Data.List.Nodup
import Mathlib.Data.List.Perm.Basic

/-!
# Every operation of a document is reported once

An operation is declared by an object under the name of a method, in an item of the paths that is an
object itself; what else stands there declares nothing.  The operations of a document are read in
the order of its paths, those of a path in the order of `methods`, and their keys tell them apart
(`keys_read`).  A pass builds the model of each of them or lists it as failed, so the keys of the
models and those of the failures are two parts of the keys of the document, each in the order of the
document and without anything in common (`accounts_report`).
-/

namespace ApiClients

namespace Reading

/-! ### The operations that a document declares -/

/-- The items of a document by their paths. -/
def pathItems : Json → List (String × Json)
  | .obj members =>
    match Json.field members "paths" with
    | .obj items => items
    | _ => []
  | _ => []

/-- The operation under the name of a method, in an item of the paths. -/
def operationAt? : Json → String → Option (List (String × Json))
  | .obj item, method =>
    match Json.field item method with
    | .obj operation => some operation
    | _ => none
  | _, _ => none

/-- The paths and methods of the operations in some items, in the order of the items and, in an
item, in the order in which methods are read. -/
def placesIn (items : List (String × Json)) : List (String × String) :=
  items.flatMap fun entry =>
    (methods.filter fun method => (operationAt? entry.2 method).isSome).map (entry.1, ·)

/-- The key of an operation by its path and its method. -/
def placeKey (place : String × String) : String := Text.upper place.2 ++ " " ++ place.1

/-- The keys of the operations that a document declares, in the order of its paths and of the
methods. -/
def declaredKeys (data : Json) : List String := (placesIn (pathItems data)).map placeKey

/-- A document declares an operation where an item of a path and what stands under the name of a
method in it are objects. -/
def DeclaresAt (data : Json) (path method : String) : Prop :=
  ∃ item operation, (path, .obj item) ∈ pathItems data ∧ method ∈ methods
    ∧ Json.field item method = .obj operation

theorem operationAt?_eq_some {item : Json} {method : String}
    {operation : List (String × Json)} :
    operationAt? item method = some operation ↔
      ∃ members, item = .obj members ∧ Json.field members method = .obj operation := by
  cases item with
  | obj members =>
    simp only [operationAt?, Json.obj.injEq, exists_eq_left']
    cases Json.field members method <;> simp
  | _ => simp [operationAt?]

theorem mem_placesIn {data : Json} {path method : String} :
    (path, method) ∈ placesIn (pathItems data) ↔ DeclaresAt data path method := by
  simp only [placesIn, List.mem_flatMap, List.mem_map, List.mem_filter, Option.isSome_iff_exists,
    operationAt?_eq_some, Prod.mk.injEq]
  constructor
  · rintro ⟨⟨path, item⟩, hentry, _, ⟨hmethod, operation, members, rfl, hfield⟩, rfl, rfl⟩
    exact ⟨members, operation, hentry, hmethod, hfield⟩
  · rintro ⟨members, operation, hentry, hmethod, hfield⟩
    exact ⟨(path, .obj members), hentry, method, ⟨hmethod, operation, members, rfl, hfield⟩, rfl,
      rfl⟩

theorem mem_declaredKeys {data : Json} {key : String} :
    key ∈ declaredKeys data ↔
      ∃ path method, DeclaresAt data path method ∧ key = placeKey (path, method) := by
  simp only [declaredKeys, List.mem_map, Prod.exists, mem_placesIn, eq_comm]

/-! ### Keys tell operations apart -/

theorem nodup_placesIn {items : List (String × Json)} (hitems : (items.map (·.1)).Nodup) :
    (placesIn items).Nodup := by
  rw [placesIn, List.nodup_flatMap]
  constructor
  · intro entry _
    have hmethods : methods.Nodup := by decide
    exact (hmethods.filter _).map fun _ _ heq => (Prod.mk.inj heq).2
  · rw [List.Nodup, List.pairwise_map] at hitems
    refine hitems.imp ?_
    intro entry other hne place hplace hother
    obtain ⟨_, _, rfl⟩ := List.mem_map.mp hplace
    obtain ⟨_, _, heq⟩ := List.mem_map.mp hother
    exact hne (Prod.mk.inj heq).1.symm

theorem upper_injective : ∀ method ∈ methods, ∀ other ∈ methods,
    Text.upper method = Text.upper other → method = other := by
  decide +kernel

theorem blank_notMem_upper : ∀ method ∈ methods, ' ' ∉ (Text.upper method).toList := by
  decide +kernel

theorem upper_upper : ∀ method ∈ methods, Text.upper (Text.upper method) = Text.upper method := by
  decide +kernel

theorem takeWhile_blank {word : List Char} (hword : ' ' ∉ word) (rest : List Char) :
    (word ++ ' ' :: rest).takeWhile (· ≠ ' ') = word := by
  rw [List.takeWhile_append_of_pos]
  · simp
  · intro c hc
    simpa using fun heq : c = ' ' => hword (heq ▸ hc)

/-- No method has a blank in it, so the first blank of a key is where the path begins. -/
theorem placeKey_injective {place other : String × String} (hplace : place.2 ∈ methods)
    (hother : other.2 ∈ methods) (h : placeKey place = placeKey other) : place = other := by
  have hchars : (Text.upper place.2).toList ++ ' ' :: place.1.toList
      = (Text.upper other.2).toList ++ ' ' :: other.1.toList := by
    simpa [placeKey] using congrArg String.toList h
  have hupper : (Text.upper place.2).toList = (Text.upper other.2).toList := by
    rw [← takeWhile_blank (blank_notMem_upper _ hplace) place.1.toList, hchars,
      takeWhile_blank (blank_notMem_upper _ hother)]
  have hmethod : place.2 = other.2 :=
    upper_injective _ hplace _ hother (String.toList_inj.mp hupper)
  rw [hupper, List.append_cancel_left_eq, List.cons.injEq] at hchars
  exact Prod.ext (String.toList_inj.mp hchars.2) hmethod

theorem nodup_declaredKeys {data : Json} (hpaths : ((pathItems data).map (·.1)).Nodup) :
    (declaredKeys data).Nodup := by
  refine List.Nodup.map_on ?_ (nodup_placesIn hpaths)
  rintro ⟨path, method⟩ hplace ⟨path', method'⟩ hother hkey
  obtain ⟨_, _, -, hmethod, -⟩ := mem_placesIn.mp hplace
  obtain ⟨_, _, -, hmethod', -⟩ := mem_placesIn.mp hother
  exact placeKey_injective hmethod hmethod' hkey

/-! ### The operations that are read -/

theorem map_of_forall₂ {α β γ : Type} {f : α → γ} {g : β → γ} {as : List α} {bs : List β}
    (h : List.Forall₂ (fun a b => g b = f a) as bs) : bs.map g = as.map f := by
  induction h with
  | nil => rfl
  | cons hab _ ih => rw [List.map_cons, List.map_cons, hab, ih]

theorem key_operation {path method : String} {members : List (String × Json)} {shared : Json}
    {s t : Reading} {found : Operation} (hmethod : method ∈ methods)
    (h : runStep (operation path method members shared) s = (.ok found, t)) :
    found.key = placeKey (path, method) := by
  unfold operation at h
  obtain ⟨_, _, -, h⟩ := runStep_bind_ok.mp h
  obtain ⟨_, _, -, h⟩ := runStep_bind_ok.mp h
  cases h
  simp only [Operation.key, placeKey, upper_upper method hmethod]

/-- The methods under which an item has operations. -/
theorem map_fst_filterMap {β : Type} (found : String → Option β) (names : List String) :
    (names.filterMap fun name => (found name).map (name, ·)).map (·.1)
      = names.filter fun name => (found name).isSome := by
  induction names with
  | nil => rfl
  | cons name rest ih => cases hfound : found name <;> simp [hfound, ih]

theorem pathOperations_obj (path : String) (item : List (String × Json)) :
    pathOperations path (.obj item) =
      (methods.filterMap fun method => (operationAt? (.obj item) method).map (method, ·)).mapM
        fun entry => operation path entry.1 entry.2 (Json.field item "parameters") := by
  unfold pathOperations
  have hfound : ∀ method, (match Json.field item method with
      | .obj operation => some (method, operation)
      | _ => none) = (operationAt? (.obj item) method).map (method, ·) := by
    intro method
    simp only [operationAt?]
    cases Json.field item method <;> rfl
  exact congrArg (fun found => (methods.filterMap found).mapM _) (funext hfound)

theorem keys_pathOperations {path : String} {item : Json} {s t : Reading} {found : List Operation}
    (h : runStep (pathOperations path item) s = (.ok found, t)) :
    found.map Operation.key = (placesIn [(path, item)]).map placeKey := by
  cases item with
  | obj item =>
    rw [pathOperations_obj] at h
    obtain ⟨-, hkeys⟩ := runStep_mapM_ok (P := fun _ => True)
      (R := fun entry found => found.key = placeKey (path, entry.1)) (by
        intro entry hentry _ _ found _ hrun
        obtain ⟨method, hmethod, hfound⟩ := List.mem_filterMap.mp hentry
        obtain ⟨_, -, rfl⟩ := Option.map_eq_some_iff.mp hfound
        exact ⟨trivial, key_operation hmethod hrun⟩) trivial h
    rw [map_of_forall₂ hkeys]
    simp only [placesIn, List.flatMap_cons, List.flatMap_nil, List.append_nil,
      ← map_fst_filterMap, List.map_map]
    rfl
  | _ =>
    cases h
    simp [placesIn, operationAt?]

theorem placesIn_cons (entry : String × Json) (rest : List (String × Json)) :
    placesIn (entry :: rest) = placesIn [entry] ++ placesIn rest := by
  simp [placesIn]

theorem fields_eq_pathItems {data : Json} {members items : List (String × Json)}
    (hmembers : Json.membersOf data = .ok members)
    (hitems : Json.fields (Json.field members "paths") = .ok items) : items = pathItems data := by
  cases data with
  | obj _ =>
    cases hmembers
    unfold Json.fields at hitems
    simp only [pathItems]
    cases hvalue : Json.field members "paths" with
    | obj entries =>
      cases entries with
      | nil => simpa [hvalue, Json.given] using hitems.symm
      | cons entry rest => simpa [hvalue, Json.given] using hitems.symm
    | _ =>
      simp only [hvalue] at hitems
      split at hitems
      · cases hitems
        rfl
      · cases hitems
  | _ => cases hmembers

theorem keys_flatten {items : List (String × Json)} {groups : List (List Operation)}
    (h : List.Forall₂ (fun entry found => found.map Operation.key = (placesIn [entry]).map placeKey)
      items groups) :
    groups.flatten.map Operation.key = (placesIn items).map placeKey := by
  induction h with
  | nil => rfl
  | @cons entry first items groups hfirst _ ih =>
    rw [List.flatten_cons, List.map_append, hfirst, ih, placesIn_cons entry items, List.map_append]

theorem keys_operations {s t : Reading} {found : List Operation}
    (h : runStep operations s = (.ok found, t)) :
    found.map Operation.key = declaredKeys s.source := by
  unfold operations at h
  rw [runStep_bind_of_ok (runStep_get s)] at h
  obtain ⟨members, hmembers, h⟩ := runStep_lift_bind h
  obtain ⟨items, hitems, h⟩ := runStep_lift_bind h
  obtain ⟨groups, v, hgroups, h⟩ := runStep_bind_ok.mp h
  cases h
  obtain rfl := fields_eq_pathItems hmembers hitems
  refine keys_flatten (runStep_mapM_ok (P := fun _ => True) ?_ trivial hgroups).2
  rintro entry - _ _ found - hrun
  exact ⟨trivial, keys_pathOperations hrun⟩

/-- The operations of a document are those that it declares, in the order in which it does. -/
theorem keys_read {reader : Reading} {data : Json} {document : Document}
    (h : (Reading.read reader data).1 = .ok document) :
    document.operations.map Operation.key = declaredKeys data := by
  have hrun : runStep (Reading.document data) reader
      = (.ok document, (Reading.read reader data).2) := by
    rw [← h]
    rfl
  obtain ⟨defs, t, u, operations, -, hloop, hoperations, heq, -, -⟩ := document_ok hrun
  have hsource : t.source = data :=
    (named_of_readDefinitions (sound_begin reader data defs) hloop).1.2.source
  rw [heq, keys_operations hoperations, hsource]

end Reading

/-! ### What becomes of the operations in a pass -/

namespace Generation

/-- The key of an operation by its outcome. -/
def outcomeKey : OperationModel ⊕ OperationFailure → String :=
  Sum.elim OperationModel.key OperationFailure.key

theorem outcomeKey_attempt {builder : Builder} {operation : Operation} {s t : Typing}
    {outcome : OperationModel ⊕ OperationFailure}
    (h : runStep (attempt builder operation) s = (.ok outcome, t)) :
    outcomeKey outcome = operation.key := by
  cases attempt_ok h with
  | built model _ hmodel => exact (Builder.build_ok hmodel).choose_spec.key
  | skipped _ _ _ _ => rfl

theorem keys_outcomes {builder : Builder} {operations : List Operation} {s t : Typing}
    {tried : List (OperationModel ⊕ OperationFailure)}
    (h : runStep (outcomes builder operations) s = (.ok tried, t)) :
    tried.map outcomeKey = operations.map Operation.key := by
  refine Reading.map_of_forall₂ (runStep_mapM_ok (P := fun _ => True) ?_ trivial h).2
  rintro operation - _ _ outcome - hrun
  exact ⟨trivial, outcomeKey_attempt hrun⟩

/-- The models are the outcomes whose keys are kept, and the failures are the others. -/
theorem parts_of_kept {kept : String → Bool} {tried : List (OperationModel ⊕ OperationFailure)}
    (h : ∀ outcome ∈ tried, kept (outcomeKey outcome) = outcome.isLeft) :
    (tried.filterMap Sum.getLeft?).map (·.key) = (tried.map outcomeKey).filter kept
      ∧ (tried.filterMap Sum.getRight?).map (·.key)
        = (tried.map outcomeKey).filter fun key => !kept key := by
  induction tried with
  | nil => exact ⟨rfl, rfl⟩
  | cons outcome rest ih =>
    obtain ⟨hmodels, hfailures⟩ := ih fun other hother => h other (List.mem_cons_of_mem _ hother)
    have hkept := h outcome List.mem_cons_self
    rw [List.map_cons, List.filter_cons, List.filter_cons, hkept, ← hmodels, ← hfailures]
    cases outcome with
    | inl model => exact ⟨rfl, rfl⟩
    | inr failure => exact ⟨rfl, rfl⟩

/-- Where no two outcomes have one key, the keys of the models and those of the failures are
complementary parts of the keys. -/
theorem parts_of_nodup {tried : List (OperationModel ⊕ OperationFailure)}
    (h : (tried.map outcomeKey).Nodup) :
    (tried.filterMap Sum.getLeft?).map (·.key) = (tried.map outcomeKey).filter
        (· ∈ (tried.filterMap Sum.getLeft?).map (·.key))
      ∧ (tried.filterMap Sum.getRight?).map (·.key) = (tried.map outcomeKey).filter
        (· ∉ (tried.filterMap Sum.getLeft?).map (·.key)) := by
  have hkept : ∀ outcome ∈ tried,
      decide (outcomeKey outcome ∈ (tried.filterMap Sum.getLeft?).map (·.key))
        = outcome.isLeft := by
    intro outcome houtcome
    cases outcome with
    | inl model =>
      have hmodel : model ∈ tried.filterMap Sum.getLeft? :=
        List.mem_filterMap.mpr ⟨.inl model, houtcome, rfl⟩
      exact decide_eq_true (List.mem_map_of_mem hmodel)
    | inr failure =>
      refine decide_eq_false fun hkey => ?_
      obtain ⟨model, hmodel, hsame⟩ := List.mem_map.mp hkey
      obtain ⟨other, hother, hleft⟩ := List.mem_filterMap.mp hmodel
      cases other with
      | inr _ => cases hleft
      | inl other =>
        cases hleft
        -- two outcomes of one key are one outcome
        cases List.inj_on_of_nodup_map h hother houtcome hsame
  simpa using parts_of_kept hkept

/-- The report of a pass over operations with distinct keys. -/
theorem parts_of_run {settings : Settings} {graph : Graph} {schemas : List NodeId}
    {operations : List Operation} {s t : Typing} {report : Report}
    (hkeys : (operations.map Operation.key).Nodup)
    (h : runStep (run settings graph schemas operations) s = (.ok report, t)) :
    report.models.map (·.key)
        = (operations.map Operation.key).filter (· ∈ report.models.map (·.key))
      ∧ report.failures.map (·.key)
        = (operations.map Operation.key).filter (· ∉ report.models.map (·.key)) := by
  obtain ⟨_, _, _, tried, -, -, htried, rfl⟩ := run_ok h
  have houtcomes := keys_outcomes htried
  have hparts := parts_of_nodup (houtcomes ▸ hkeys)
  rw [houtcomes] at hparts
  exact hparts

end Generation

/-! ### From the document to the report -/

open Reading

/-- A report accounts for what a document declares.  The keys of the operations are distinct, each
declared operation is once among the models and the failures together, where nothing else is, and
the models and the failures take complementary parts of the keys, each in their order. -/
theorem accounts_report {reader : Reading} {data : Json} {document : Document}
    (hread : (Reading.read reader data).1 = .ok document)
    (hpaths : ((pathItems data).map (·.1)).Nodup)
    {settings : Settings} {schemas : List NodeId} {journal : Journal} {report : Report}
    (hreport : (Generation.report settings document.graph schemas document.operations journal).1
      = .ok report) :
    document.operations.map Operation.key = declaredKeys data
      ∧ (declaredKeys data).Nodup
      ∧ (∀ path method, DeclaresAt data path method →
        (report.models.map (·.key) ++ report.failures.map (·.key)).count (placeKey (path, method))
          = 1)
      ∧ (∀ key ∈ report.models.map (·.key) ++ report.failures.map (·.key),
        ∃ path method, DeclaresAt data path method ∧ key = placeKey (path, method))
      ∧ report.models.map (·.key) = (declaredKeys data).filter (· ∈ report.models.map (·.key))
      ∧ report.failures.map (·.key)
        = (declaredKeys data).filter (· ∉ report.models.map (·.key)) := by
  have hkeys := keys_read hread
  have hdistinct := nodup_declaredKeys hpaths
  obtain ⟨hmodels, hfailures⟩ := Generation.parts_of_run (hkeys ▸ hdistinct)
    (Prod.ext hreport rfl)
  rw [hkeys] at hmodels hfailures
  have hall : (report.models.map (·.key) ++ report.failures.map (·.key)).Perm
      (declaredKeys data) := by
    have hsplit := List.filter_append_perm (· ∈ report.models.map (·.key)) (declaredKeys data)
    simp only [← decide_not] at hsplit
    rwa [← hmodels, ← hfailures] at hsplit
  refine ⟨hkeys, hdistinct, ?_, ?_, hmodels, hfailures⟩
  · intro path method hdeclares
    rw [hall.count_eq]
    exact List.count_eq_one_of_mem hdistinct (mem_declaredKeys.mpr ⟨path, method, hdeclares, rfl⟩)
  · intro key hkey
    exact mem_declaredKeys.mp (hall.mem_iff.mp hkey)

/-- Pets and owners: a word in the place of an operation and one in the place of an item declare
nothing, and the parameters of one operation are not a list. -/
def storeData : Json :=
  let empty := Json.obj [("responses", .obj [])]
  .obj [
    ("swagger", .str "2.0"),
    ("paths", .obj [
      ("/pets", .obj [
        ("post", empty),
        ("get", .obj [("parameters", .str "none"), ("responses", .obj [])]),
        ("trace", .str "none")]),
      ("/stores", .str "none"),
      ("/owners", .obj [("delete", empty)])])]

def storeOperations : List Operation :=
  [{ method := "GET", path := "/pets", parameters := none },
   { method := "POST", path := "/pets" },
   { method := "DELETE", path := "/owners" }]

theorem accounts_report_store : ∃ document report,
    (Reading.read {} storeData).1 = .ok document
      ∧ ((pathItems storeData).map (·.1)).Nodup
      ∧ (Generation.report {} document.graph [] document.operations []).1 = .ok report
      ∧ DeclaresAt storeData "/owners" "delete"
      ∧ (report.models.map (·.key) ++ report.failures.map (·.key)).count
          (placeKey ("/owners", "delete")) = 1
      ∧ report.models.map (·.key) = ["POST /pets", "DELETE /owners"]
      ∧ report.failures.map (·.key) = ["GET /pets"] := by
  obtain ⟨document, _, hread, hgraph, hoperations, _⟩ :
      ∃ document s, Reading.read {} storeData = (.ok document, s)
        ∧ document.graph = {} ∧ document.operations = storeOperations ∧ document.schemas = [] :=
    Reading.read_of_parts (by decide +kernel)
  have hpass : (Generation.report {} {} [] storeOperations []).1.toOption.map
      (fun report => (report.models.map (·.key), report.failures.map (·.key)))
        = some (["POST /pets", "DELETE /owners"], ["GET /pets"]) := by
    have hnone : ({} : Graph).typeDefinitions (Generation.roots [] storeOperations) = [] := by
      have hroots : Generation.roots [] storeOperations = [] := rfl
      rw [hroots, Graph.typeDefinitions, Graph.visit, List.filter_nil]
    unfold Generation.report Generation.run Generation.prepare
    rw [hnone]
    decide +kernel
  rw [← hgraph, ← hoperations] at hpass
  have hread : (Reading.read {} storeData).1 = .ok document := by rw [hread]
  have hpaths : ((pathItems storeData).map (·.1)).Nodup := by decide
  have hdeclares : DeclaresAt storeData "/owners" "delete" :=
    ⟨_, _, List.mem_cons_of_mem _ (List.mem_cons_of_mem _ List.mem_cons_self), by decide, rfl⟩
  cases hreport : (Generation.report {} document.graph [] document.operations []).1 with
  | error failure =>
    rw [hreport] at hpass
    cases hpass
  | ok report =>
    rw [hreport] at hpass
    obtain ⟨hmodels, hfailures⟩ := Prod.mk.inj (Option.some.inj hpass)
    obtain ⟨-, -, honce, -⟩ := accounts_report hread hpaths hreport
    exact ⟨document, report, hread, hpaths, hreport, hdeclares, honce _ _ hdeclares, hmodels,
      hfailures⟩

end ApiClients
