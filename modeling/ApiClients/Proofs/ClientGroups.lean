import ApiClients.Manifest.Markdown
import ApiClients.Proofs.OrderedEntries
import ApiClients.Proofs.Passes
import ApiClients.Proofs.Reachability
import Mathlib.Data.List.Perm.Basic

/-!
# Models grouped by client

The manifest shows the models of a report client by client.  The clients of a report are those that
its models name, in the order of first use, each with its models (`clients_eq`).  Sorting them by the
names of their classes keeps this order where several clients have one class.  So the groups are a
partition of the models by client, in the order of class names and of first use
(`clients_partition_models`).
-/

namespace ApiClients

open ApiClients.Entries

/-! ### The clients of a report -/

namespace Report

variable {models : List OperationModel}

/-- The models of each of some clients. -/
def byClient (models : List OperationModel) (clients : List String) :
    List (String × List OperationModel) :=
  clients.map fun client => (client, models.filter (·.client = client))

/-- The clients that models name, in the order of first use. -/
def clientNames (models : List OperationModel) : List String :=
  (models.map (·.client)).eraseDups

theorem mem_clientNames {client : String} :
    client ∈ clientNames models ↔ ∃ model ∈ models, model.client = client := by
  rw [clientNames, List.mem_eraseDups, List.mem_map]

theorem byClient_cons (models : List OperationModel) (client : String) (rest : List String) :
    byClient models (client :: rest) =
      (client, models.filter (·.client = client)) :: byClient models rest := rfl

theorem byClient_concat_of_not_mem {clients : List String} {model : OperationModel}
    (h : model.client ∉ clients) :
    byClient (models ++ [model]) clients = byClient models clients := by
  apply List.map_congr_left
  intro client hclient
  have hother : model.client ≠ client := fun hsame => h (hsame ▸ hclient)
  simp [hother]

/-- A model goes to its own client, which is a new one if none of the clients before is its. -/
theorem addToClient_byClient {clients : List String} {model : OperationModel}
    (hnodup : clients.Nodup)
    (hnew : model.client ∉ clients → models.filter (·.client = model.client) = []) :
    addToClient (byClient models clients) model = byClient (models ++ [model])
      (if model.client ∈ clients then clients else clients ++ [model.client]) := by
  induction clients with
  | nil => simp [byClient, addToClient, hnew]
  | cons client rest ih =>
    have hrest := List.nodup_cons.mp hnodup
    rw [byClient_cons, addToClient]
    by_cases hsame : client = model.client
    · subst hsame
      rw [if_pos rfl, if_pos List.mem_cons_self, byClient_cons,
        byClient_concat_of_not_mem hrest.1]
      simp
    · have hnext := ih hrest.2 fun hmem => hnew (by simp [hmem, Ne.symm hsame])
      have hfilter : (models ++ [model]).filter (·.client = client) =
          models.filter (·.client = client) := by simp [Ne.symm hsame]
      rw [if_neg hsame, hnext, ← hfilter, ← byClient_cons]
      by_cases hrepeated : model.client ∈ rest
      · rw [if_pos hrepeated, if_pos (List.mem_cons_of_mem client hrepeated)]
      · rw [if_neg hrepeated, if_neg (by simp [hrepeated, Ne.symm hsame]), List.cons_append]

theorem foldl_addToClient (models : List OperationModel) :
    models.foldl addToClient [] = byClient models (clientNames models) := by
  induction models using List.reverseRecOn with
  | nil => rfl
  | append_singleton models model ih =>
    have hnew : model.client ∉ clientNames models →
        models.filter (·.client = model.client) = [] := by
      intro hmem
      rw [mem_clientNames] at hmem
      rw [List.filter_eq_nil_iff]
      intro other hother hsame
      exact hmem ⟨other, hother, by simpa using hsame⟩
    rw [List.foldl_append, ih]
    have hadded := addToClient_byClient (nodup_eraseDups (models.map (·.client))) hnew
    have hnames : clientNames (models ++ [model]) = if model.client ∈ clientNames models
        then clientNames models else clientNames models ++ [model.client] := by
      have hsame : model.client ∈ clientNames models ↔ model.client ∈ models.map (·.client) :=
        List.mem_eraseDups
      simp only [hsame]
      rw [clientNames, List.map_append, List.map_singleton, eraseDups_concat]
      rfl
    rw [hnames]
    exact hadded

/-- Each client that is named has the models that name it, in the order of the report. -/
theorem clients_eq (report : Report) :
    report.clients = byClient report.models (clientNames report.models) :=
  foldl_addToClient report.models

/-- Models of different clients are all the models, if their clients are among them. -/
theorem flatMap_byClient_perm {clients : List String} (hnodup : clients.Nodup)
    (hnamed : ∀ model ∈ models, model.client ∈ clients) :
    ((byClient models clients).flatMap (·.2)).Perm models := by
  induction clients generalizing models with
  | nil =>
    have hnone : models = [] := List.eq_nil_iff_forall_not_mem.mpr fun model hmodel => by
      cases hnamed model hmodel
    subst hnone
    exact List.Perm.refl _
  | cons client rest ih =>
    have hcons := List.nodup_cons.mp hnodup
    let others := models.filter fun model => ! decide (model.client = client)
    have hothers : ((byClient others rest).flatMap (·.2)).Perm others := by
      refine ih hcons.2 ?_
      intro model hmodel
      obtain ⟨hmem, hother⟩ := List.mem_filter.mp hmodel
      have hne : model.client ≠ client := by simpa using hother
      exact (List.mem_cons.mp (hnamed model hmem)).resolve_left hne
    have hsame : byClient others rest = byClient models rest := by
      apply List.map_congr_left
      intro other hother
      have hne : other ≠ client := fun heq => hcons.1 (heq ▸ hother)
      rw [List.filter_filter]
      congr 1
      apply List.filter_congr
      intro model _
      by_cases hclient : model.client = other <;> simp [hclient, hne]
    rw [hsame] at hothers
    have hsplit := List.filter_append_perm (fun model => decide (model.client = client)) models
    rw [byClient_cons, List.flatMap_cons]
    exact (hothers.append_left _).trans hsplit

end Report

/-! ### The groups of a manifest -/

namespace Manifest

open ApiClients.Report

section

variable {models : List OperationModel} {className : String → String}

/-- The groups of some models, in the order of first use, each under the class of its client. -/
def classGroups (models : List OperationModel) (className : String → String) :
    List (String × List OperationModel) :=
  (clientNames models).map fun client => (className client, models.filter (·.client = client))

theorem clientGroups_eq {report : Report}
    (h : ∀ model ∈ report.models, model.clientClass = className model.client) :
    clientGroups report = sortByKey (classGroups report.models className) := by
  rw [clientGroups, clients_eq, byClient, List.map_map, classGroups]
  congr 1
  apply List.map_congr_left
  intro client hclient
  obtain ⟨model, hmodel, hsame⟩ := mem_clientNames.mp hclient
  have hmem : model ∈ report.models.filter (·.client = client) :=
    List.mem_filter.mpr ⟨hmodel, by simpa using hsame⟩
  -- the class name is taken from the first model of the group, which is a model of the client
  cases hgroup : report.models.filter (·.client = client) with
  | nil => simp [hgroup] at hmem
  | cons first rest =>
    have hfirst : first ∈ report.models.filter (·.client = client) := by simp [hgroup]
    obtain ⟨hlisted, hnamed⟩ := List.mem_filter.mp hfirst
    have hclient : first.client = client := by simpa using hnamed
    simp [hgroup, h first hlisted, hclient]

theorem mem_classGroups {group : String × List OperationModel} :
    group ∈ classGroups models className ↔ ∃ model ∈ models,
      group = (className model.client, models.filter (·.client = model.client)) := by
  rw [classGroups, List.mem_map]
  constructor
  · rintro ⟨client, hclient, rfl⟩
    obtain ⟨model, hmodel, rfl⟩ := mem_clientNames.mp hclient
    exact ⟨model, hmodel, rfl⟩
  · rintro ⟨model, hmodel, rfl⟩
    exact ⟨_, mem_clientNames.mpr ⟨model, hmodel, rfl⟩, rfl⟩

/-- The place at which a client is first named. -/
def firstUse (models : List OperationModel) (client : String) : Nat :=
  (models.map (·.client)).idxOf client

theorem classGroups_firstUse (models : List OperationModel) (className : String → String) :
    (classGroups models className).Pairwise fun g h => ∀ a ∈ g.2, ∀ b ∈ h.2,
      firstUse models a.client < firstUse models b.client := by
  apply List.pairwise_map.mpr
  refine (eraseDups_firstUse (models.map (·.client))).imp ?_
  intro client other hbefore a ha b hb
  have hclient : a.client = client := by simpa using (List.mem_filter.mp ha).2
  have hother : b.client = other := by simpa using (List.mem_filter.mp hb).2
  rw [hclient, hother]
  exact hbefore

theorem flatMap_classGroups_perm (models : List OperationModel) (className : String → String) :
    ((classGroups models className).flatMap (·.2)).Perm models := by
  have hsame : (classGroups models className).flatMap (·.2) =
      (byClient models (clientNames models)).flatMap (·.2) := by
    rw [classGroups, byClient, List.flatMap_map, List.flatMap_map]
  rw [hsame]
  exact flatMap_byClient_perm (nodup_eraseDups _) fun model hmodel =>
    mem_clientNames.mpr ⟨model, hmodel, rfl⟩

/-- Groups of models under the names of classes.  Each model is in one group, and there once; a
group has all the models of one client, in the order of the models, and another group has another
client.  The models of a group have its class.  The groups are in the order of their classes, and
those of one class in the order in which their clients are first used. -/
structure GroupedByClient (models : List OperationModel)
    (groups : List (String × List OperationModel)) : Prop where
  complete : (groups.flatMap (·.2)).Perm models
  ofClient : ∀ group ∈ groups, ∃ model ∈ models,
    group.2 = models.filter (·.client = model.client)
  together : ∀ a ∈ models, ∀ b ∈ models,
    (∃ group ∈ groups, a ∈ group.2 ∧ b ∈ group.2) ↔ a.client = b.client
  apart : groups.Pairwise fun g h => ∀ a ∈ g.2, ∀ b ∈ h.2, a.client ≠ b.client
  className : ∀ group ∈ groups, ∀ model ∈ group.2, model.clientClass = group.1
  ordered : groups.Pairwise fun g h => g.1 ≤ h.1
  firstUsed : groups.Pairwise fun g h => g.1 = h.1 → ∀ a ∈ g.2, ∀ b ∈ h.2,
    firstUse models a.client < firstUse models b.client

theorem groupedByClient_sortByKey
    (h : ∀ model ∈ models, model.clientClass = className model.client) :
    GroupedByClient models (sortByKey (classGroups models className)) := by
  have hperm := sortByKey_perm (classGroups models className)
  have hsorted := sortByKey_pairwise (classGroups_firstUse models className)
  constructor
  case complete => exact (hperm.flatMap_right _).trans (flatMap_classGroups_perm models className)
  case ofClient =>
    intro group hgroup
    obtain ⟨model, hmodel, rfl⟩ := mem_classGroups.mp (mem_sortByKey.mp hgroup)
    exact ⟨model, hmodel, rfl⟩
  case together =>
    intro a ha b hb
    constructor
    · rintro ⟨group, hgroup, hfirst, hsecond⟩
      obtain ⟨model, hmodel, rfl⟩ := mem_classGroups.mp (mem_sortByKey.mp hgroup)
      have hfirst : a.client = model.client := by simpa using (List.mem_filter.mp hfirst).2
      have hsecond : b.client = model.client := by simpa using (List.mem_filter.mp hsecond).2
      exact hfirst.trans hsecond.symm
    · intro hsame
      have hgroup : (className a.client, models.filter (·.client = a.client)) ∈
          classGroups models className := mem_classGroups.mpr ⟨a, ha, rfl⟩
      exact ⟨_, mem_sortByKey.mpr hgroup, List.mem_filter.mpr ⟨ha, by simp⟩,
        List.mem_filter.mpr ⟨hb, by simp [hsame]⟩⟩
  case apart =>
    have hdifferent : (classGroups models className).Pairwise fun g h =>
        ∀ a ∈ g.2, ∀ b ∈ h.2, a.client ≠ b.client := by
      refine (classGroups_firstUse models className).imp ?_
      intro g h hbefore a ha b hb hsame
      exact absurd (hbefore a ha b hb) (by rw [hsame]; exact lt_irrefl _)
    refine (hperm.pairwise_iff ?_).mpr hdifferent
    intro g h hgh b hb a ha hsame
    exact hgh a ha b hb hsame.symm
  case className =>
    intro group hgroup model hmodel
    obtain ⟨first, hfirst, rfl⟩ := mem_classGroups.mp (mem_sortByKey.mp hgroup)
    obtain ⟨hlisted, hsame⟩ := List.mem_filter.mp hmodel
    rw [h model hlisted]
    exact congrArg className (by simpa using hsame)
  case ordered => exact hsorted.imp fun hgroups => hgroups.1
  case firstUsed => exact hsorted.imp fun hgroups => hgroups.2

end

/-- The groups under which a manifest shows the models of a report are these models by client, in
the order of the classes of the clients and, for one class, of first use. -/
theorem clients_partition_models (settings : Settings) (graph : Graph) (schemas : List NodeId)
    (operations : List Operation) (journal : Journal) (report : Report)
    (h : (Generation.report settings graph schemas operations journal).1 = .ok report) :
    GroupedByClient report.models (clientGroups report)
      ∧ ∀ model ∈ report.models, model.clientClass = settings.clientClassName model.client := by
  have hrun : runStep (Generation.run settings graph schemas operations) { journal := journal } =
      (.ok report, _) := Prod.ext h rfl
  obtain ⟨builder, hsettings, -, -, hnames⟩ := Generation.models_of_run hrun
  have hclass : ∀ model ∈ report.models,
      model.clientClass = settings.clientClassName model.client := by
    intro model hmodel
    obtain ⟨operation, -, name, hname⟩ := hnames model hmodel
    rw [hname.clientClass, hname.client, hsettings]
  rw [clientGroups_eq hclass]
  exact ⟨groupedByClient_sortByKey hclass, hclass⟩

/-- Operations of two clients by turns. -/
def turns : List Operation :=
  [{ method := "get", path := "/shops", tags := ["shops"] },
   { method := "get", path := "/pets", tags := ["pets"] },
   { method := "post", path := "/shops", tags := ["shops"] }]

/-- With one class for all clients the groups are in the order of first use. -/
theorem clients_partition_models_turns :
    ∃ report, (Generation.report { className := "Client" } {} [] turns []).1 = .ok report
      ∧ (clientGroups report).map (fun group => (group.1, group.2.map (·.key))) =
        [("Client", ["GET /shops", "POST /shops"]), ("Client", ["GET /pets"])]
      ∧ GroupedByClient report.models (clientGroups report) := by
  have hgroups : (Generation.report { className := "Client" } {} [] turns []).1.toOption.map
      (fun report => (clientGroups report).map fun group => (group.1, group.2.map (·.key))) =
        some [("Client", ["GET /shops", "POST /shops"]), ("Client", ["GET /pets"])] := by
    have hnone : ({} : Graph).typeDefinitions (Generation.roots [] turns) = [] :=
      Graph.typeDefinitions_nil {}
    unfold Generation.report Generation.run Generation.prepare
    rw [hnone]
    decide +kernel
  obtain ⟨report, hreport, hgroups⟩ := Except.ok_of_toOption_map hgroups
  exact ⟨report, hreport, hgroups, (clients_partition_models _ _ _ _ _ report hreport).1⟩

end Manifest

end ApiClients
