import ApiClients.Types.Registry
import Mathlib.Data.List.Forall2

/-!
# Runs of steps

Reading a document and resolving types are made of steps that change a state and may fail; what a
step has changed stays when it fails.  `runStep` is the outcome of a step from a state together with
the state after it.  This file says how the outcome of a compound step follows from those of its
parts, and what it takes for a property of the state to hold after every step (`Upholds`).
-/

namespace ApiClients

variable {ε σ α β γ : Type}

/-- The outcome of a step from a state, and the state after it. -/
def runStep (step : ExceptT ε (StateM σ) α) (s : σ) : Except ε α × σ := step.run.run s

/-! ### Compound steps -/

@[simp] theorem runStep_pure (a : α) (s : σ) :
    runStep (pure a : ExceptT ε (StateM σ) α) s = (.ok a, s) := rfl

@[simp] theorem runStep_throw (e : ε) (s : σ) :
    runStep (throw e : ExceptT ε (StateM σ) α) s = (.error e, s) := rfl

@[simp] theorem runStep_get (s : σ) :
    runStep (get : ExceptT ε (StateM σ) σ) s = (.ok s, s) := rfl

@[simp] theorem runStep_modify (f : σ → σ) (s : σ) :
    runStep (modify f : ExceptT ε (StateM σ) PUnit) s = (.ok ⟨⟩, f s) := rfl

@[simp] theorem runStep_modifyGet (f : σ → α × σ) (s : σ) :
    runStep (modifyGet f : ExceptT ε (StateM σ) α) s = (.ok (f s).1, (f s).2) := rfl

@[simp] theorem runStep_mk (outcome : Except ε α) (s : σ) :
    runStep (ExceptT.mk (pure outcome) : ExceptT ε (StateM σ) α) s = (outcome, s) := rfl

/-- The second step starts where the first has succeeded, and does not start where it has failed. -/
theorem runStep_bind (x : ExceptT ε (StateM σ) α) (f : α → ExceptT ε (StateM σ) β) (s : σ) :
    runStep (x >>= f) s =
      match runStep x s with
      | (.ok a, t) => runStep (f a) t
      | (.error e, t) => (.error e, t) := by
  show (ExceptT.bindCont f (x.run.run s).1 : StateM σ _).run (x.run.run s).2 = _
  unfold runStep
  rcases x.run.run s with ⟨e | a, t⟩ <;> rfl

theorem runStep_bind_of_ok {x : ExceptT ε (StateM σ) α} {f : α → ExceptT ε (StateM σ) β}
    {s t : σ} {a : α} (h : runStep x s = (.ok a, t)) :
    runStep (x >>= f) s = runStep (f a) t := by
  rw [runStep_bind, h]

theorem runStep_bind_of_error {x : ExceptT ε (StateM σ) α} {f : α → ExceptT ε (StateM σ) β}
    {s t : σ} {e : ε} (h : runStep x s = (.error e, t)) :
    runStep (x >>= f) s = (.error e, t) := by
  rw [runStep_bind, h]

/-- A step of which the result has been found by evaluation. -/
theorem runStep_of_toOption {x : ExceptT ε (StateM σ) α} {s : σ} {a : α}
    (h : (runStep x s).1.toOption = some a) : runStep x s = (.ok a, (runStep x s).2) := by
  rcases hrun : runStep x s with ⟨e | b, t⟩
  · rw [hrun] at h
    cases h
  · rw [hrun] at h
    cases h
    rfl

theorem Except.ok_of_toOption_map {x : Except ε α} {f : α → β} {b : β}
    (h : x.toOption.map f = some b) : ∃ a, x = .ok a ∧ f a = b := by
  cases x with
  | error e => cases h
  | ok a => exact ⟨a, rfl, Option.some.inj h⟩

theorem Except.bind_ok {x : Except ε α} {f : α → Except ε β} {b : β} :
    (x >>= f) = .ok b ↔ ∃ a, x = .ok a ∧ f a = .ok b := by
  cases x with
  | error e =>
    constructor
    · intro h
      cases h
    · rintro ⟨_, h, _⟩
      cases h
  | ok a =>
    constructor
    · intro h
      exact ⟨a, rfl, h⟩
    · rintro ⟨_, h, hrest⟩
      cases h
      exact hrest

/-- A compound step succeeds exactly when both of its steps do. -/
theorem runStep_bind_ok {x : ExceptT ε (StateM σ) α} {f : α → ExceptT ε (StateM σ) β}
    {s t : σ} {b : β} :
    runStep (x >>= f) s = (.ok b, t) ↔
      ∃ a u, runStep x s = (.ok a, u) ∧ runStep (f a) u = (.ok b, t) := by
  rw [runStep_bind]
  rcases runStep x s with ⟨e | a, u⟩
  · simp
  · constructor
    · intro h
      exact ⟨a, u, rfl, h⟩
    · rintro ⟨a', u', heq, h⟩
      cases heq
      exact h

/-- A compound step fails where its first step does, or where its second does after it. -/
theorem runStep_bind_error {x : ExceptT ε (StateM σ) α} {f : α → ExceptT ε (StateM σ) β}
    {s t : σ} {e : ε} :
    runStep (x >>= f) s = (.error e, t) ↔
      runStep x s = (.error e, t) ∨
        ∃ a u, runStep x s = (.ok a, u) ∧ runStep (f a) u = (.error e, t) := by
  rw [runStep_bind]
  rcases runStep x s with ⟨e' | a, u⟩
  · simp
  · constructor
    · intro h
      exact Or.inr ⟨a, u, rfl, h⟩
    · rintro (h | ⟨a', u', heq, h⟩)
      · simp at h
      · cases heq
        exact h

theorem runStep_map_ok {x : ExceptT ε (StateM σ) α} {f : α → β} {s t : σ} {b : β} :
    runStep (f <$> x) s = (.ok b, t) ↔ ∃ a, runStep x s = (.ok a, t) ∧ f a = b := by
  rw [map_eq_pure_bind, runStep_bind_ok]
  constructor
  · rintro ⟨a, u, hx, h⟩
    simp only [runStep_pure, Prod.mk.injEq, Except.ok.injEq] at h
    obtain ⟨rfl, rfl⟩ := h
    exact ⟨a, hx, rfl⟩
  · rintro ⟨a, hx, rfl⟩
    exact ⟨a, t, hx, rfl⟩

/-- A step that is tried hands its failure, and the state it has failed in, to the handler. -/
theorem runStep_tryCatch (x : ExceptT ε (StateM σ) α) (handle : ε → ExceptT ε (StateM σ) α)
    (s : σ) :
    runStep (tryCatch x handle) s =
      match runStep x s with
      | (.ok a, t) => (.ok a, t)
      | (.error e, t) => runStep (handle e) t := by
  unfold runStep
  show ((x.run >>= fun
    | Except.ok a => pure (Except.ok a)
    | Except.error e => (handle e).run : StateM σ _).run s) = _
  show (match (x.run.run s).1 with
    | Except.ok a => (pure (Except.ok a) : StateM σ (Except ε α))
    | Except.error e => (handle e).run).run (x.run.run s).2 = _
  rcases x.run.run s with ⟨e | a, t⟩ <;> rfl

/-- What a list of steps has come to when all of them have succeeded: each result is related to what
it was made from, if every step sees to it in every state that the steps before may leave. -/
theorem runStep_mapM_ok {P : σ → Prop} {R : α → β → Prop} {f : α → ExceptT ε (StateM σ) β}
    {as : List α} {bs : List β} {s t : σ}
    (hstep : ∀ a ∈ as, ∀ s t b, P s → runStep (f a) s = (.ok b, t) → P t ∧ R a b) (hs : P s)
    (h : runStep (as.mapM f) s = (.ok bs, t)) : P t ∧ List.Forall₂ R as bs := by
  induction as generalizing bs s with
  | nil =>
    cases h
    exact ⟨hs, .nil⟩
  | cons a as ih =>
    rw [List.mapM_cons, runStep_bind_ok] at h
    obtain ⟨b, u, hfirst, h⟩ := h
    rw [runStep_bind_ok] at h
    obtain ⟨rest, v, hrest, h⟩ := h
    cases h
    obtain ⟨hu, hb⟩ := hstep a List.mem_cons_self s u b hs hfirst
    obtain ⟨hv, hbs⟩ := ih (fun a' ha' => hstep a' (List.mem_cons_of_mem a ha')) hu hrest
    exact ⟨hv, .cons hb hbs⟩

/-! ### Properties that stay -/

/-- After the step, failed or not, the state has a property `P` that it had before, and if the step
has failed then in a way that `E` admits. -/
def Upholds (P : σ → Prop) (E : ε → Prop) (step : ExceptT ε (StateM σ) α) : Prop :=
  ∀ s, P s → P (runStep step s).2 ∧ ∀ e, (runStep step s).1 = .error e → E e

section

variable {P : σ → Prop} {E : ε → Prop}

theorem upholds_pure (a : α) : Upholds P E (pure a : ExceptT ε (StateM σ) α) :=
  fun _ h => ⟨h, fun _ he => by cases he⟩

theorem upholds_throw {e : ε} (he : E e) : Upholds P E (throw e : ExceptT ε (StateM σ) α) := by
  intro s hs
  refine ⟨hs, ?_⟩
  intro e' he'
  cases he'
  exact he

theorem upholds_mk {outcome : Except ε α} (he : ∀ e, outcome = .error e → E e) :
    Upholds P E (ExceptT.mk (pure outcome) : ExceptT ε (StateM σ) α) :=
  fun _ hs => ⟨hs, he⟩

/-- A step that takes a result up and may use how it has been made. -/
theorem upholds_mk_bind {outcome : Except ε α} {f : α → ExceptT ε (StateM σ) β}
    (he : ∀ e, outcome = .error e → E e) (hf : ∀ a, outcome = .ok a → Upholds P E (f a)) :
    Upholds P E ((ExceptT.mk (pure outcome) : ExceptT ε (StateM σ) α) >>= f) := by
  intro s hs
  rw [runStep_bind, runStep_mk]
  cases outcome with
  | error e =>
    refine ⟨hs, ?_⟩
    intro e' he'
    cases he'
    exact he e rfl
  | ok a => exact hf a rfl s hs

theorem upholds_modify {f : σ → σ} (h : ∀ s, P s → P (f s)) :
    Upholds P E (modify f : ExceptT ε (StateM σ) PUnit) :=
  fun s hs => ⟨h s hs, fun _ he => by cases he⟩

theorem upholds_bind {x : ExceptT ε (StateM σ) α} {f : α → ExceptT ε (StateM σ) β}
    (hx : Upholds P E x) (hf : ∀ a, Upholds P E (f a)) : Upholds P E (x >>= f) := by
  intro s hs
  have hfirst := hx s hs
  rw [runStep_bind]
  rcases hrun : runStep x s with ⟨e | a, t⟩
  · rw [hrun] at hfirst
    refine ⟨hfirst.1, ?_⟩
    intro e' he'
    cases he'
    exact hfirst.2 e rfl
  · rw [hrun] at hfirst
    exact hf a t hfirst.1

/-- A step that looks at the state first, and may use what `P` says of it. -/
theorem upholds_get_bind {f : σ → ExceptT ε (StateM σ) β}
    (h : ∀ s, P s → P (runStep (f s) s).2 ∧ ∀ e, (runStep (f s) s).1 = .error e → E e) :
    Upholds P E (get >>= f) := by
  intro s hs
  rw [runStep_bind_of_ok (runStep_get s)]
  exact h s hs

theorem upholds_tryCatch {E' : ε → Prop} {x : ExceptT ε (StateM σ) α}
    {handle : ε → ExceptT ε (StateM σ) α} (hx : Upholds P E' x)
    (hhandle : ∀ e, E' e → Upholds P E (handle e)) : Upholds P E (tryCatch x handle) := by
  intro s hs
  have htried := hx s hs
  rw [runStep_tryCatch]
  rcases hrun : runStep x s with ⟨e | a, t⟩
  · rw [hrun] at htried
    exact hhandle e (htried.2 e rfl) t htried.1
  · rw [hrun] at htried
    exact ⟨htried.1, fun _ he => by cases he⟩

theorem upholds_mapM {f : α → ExceptT ε (StateM σ) β} {as : List α}
    (h : ∀ a ∈ as, Upholds P E (f a)) : Upholds P E (as.mapM f) := by
  induction as with
  | nil => exact upholds_pure []
  | cons a as ih =>
    rw [List.mapM_cons]
    refine upholds_bind (h a List.mem_cons_self) fun b => ?_
    refine upholds_bind (ih fun a' ha' => h a' (List.mem_cons_of_mem a ha')) fun bs => ?_
    exact upholds_pure (b :: bs)

/-- A loop that goes through all of a list. -/
theorem upholds_forIn {body : α → PUnit → ExceptT ε (StateM σ) (ForInStep PUnit)} {as : List α}
    (h : ∀ a ∈ as, Upholds P E (body a PUnit.unit)) :
    Upholds P E (forIn as PUnit.unit body) := by
  induction as with
  | nil => exact upholds_pure PUnit.unit
  | cons a as ih =>
    rw [List.forIn_cons]
    refine upholds_bind (h a List.mem_cons_self) fun next => ?_
    cases next with
    | done _ => exact upholds_pure PUnit.unit
    | yield _ => exact ih fun a' ha' => h a' (List.mem_cons_of_mem a ha')

end

/-! ### What steps lead to -/

/-- From a state with a property `P` the step leads to a result and a state that are related by `Q`,
or it fails, and the failure and the state are related by `F`. -/
def Leads (P : σ → Prop) (Q : α → σ → Prop) (F : ε → σ → Prop) (step : ExceptT ε (StateM σ) α) :
    Prop :=
  ∀ s, P s → (∀ a t, runStep step s = (.ok a, t) → Q a t)
    ∧ ∀ e t, runStep step s = (.error e, t) → F e t

section

variable {P P' : σ → Prop} {Q Q' : α → σ → Prop} {R : β → σ → Prop} {F F' : ε → σ → Prop}

theorem Leads.mono {step : ExceptT ε (StateM σ) α} (h : Leads P Q F step) (hP : ∀ s, P' s → P s)
    (hQ : ∀ a s, Q a s → Q' a s) (hF : ∀ e s, F e s → F' e s) : Leads P' Q' F' step :=
  fun s hs => ⟨fun a t hrun => hQ a t ((h s (hP s hs)).1 a t hrun),
    fun e t hrun => hF e t ((h s (hP s hs)).2 e t hrun)⟩

theorem Leads.weaken {step : ExceptT ε (StateM σ) α} (h : Leads P Q F step)
    (hP : ∀ s, P' s → P s) : Leads P' Q F step :=
  h.mono hP (fun _ _ hQ => hQ) fun _ _ hF => hF

theorem upholds_iff_leads {E : ε → Prop} {step : ExceptT ε (StateM σ) α} :
    Upholds P E step ↔ Leads P (fun _ => P) (fun e s => P s ∧ E e) step := by
  constructor
  · intro h s hs
    have hstep := h s hs
    refine ⟨?_, ?_⟩
    · intro a t hrun
      rw [hrun] at hstep
      exact hstep.1
    · intro e t hrun
      rw [hrun] at hstep
      exact ⟨hstep.1, hstep.2 e rfl⟩
  · intro h s hs
    rcases hrun : runStep step s with ⟨e | a, t⟩
    · obtain ⟨ht, he⟩ := (h s hs).2 e t hrun
      refine ⟨ht, ?_⟩
      rintro _ ⟨⟩
      exact he
    · exact ⟨(h s hs).1 a t hrun, fun _ he => by cases he⟩

theorem leads_pure {a : α} (h : ∀ s, P s → Q a s) :
    Leads P Q F (pure a : ExceptT ε (StateM σ) α) := by
  intro s hs
  refine ⟨?_, fun e t hrun => by cases hrun⟩
  intro b t hrun
  cases hrun
  exact h s hs

theorem leads_throw {e : ε} (h : ∀ s, P s → F e s) :
    Leads P Q F (throw e : ExceptT ε (StateM σ) α) := by
  intro s hs
  refine ⟨fun a t hrun => (by cases hrun), ?_⟩
  intro e' t hrun
  cases hrun
  exact h s hs

theorem leads_mk {outcome : Except ε α} (hok : ∀ a, outcome = .ok a → ∀ s, P s → Q a s)
    (herror : ∀ e, outcome = .error e → ∀ s, P s → F e s) :
    Leads P Q F (ExceptT.mk (pure outcome) : ExceptT ε (StateM σ) α) := by
  intro s hs
  constructor
  · intro a t hrun
    cases hrun
    exact hok a rfl s hs
  · intro e t hrun
    cases hrun
    exact herror e rfl s hs

theorem leads_modify {f : σ → σ} {Q : PUnit → σ → Prop} (h : ∀ s, P s → Q ⟨⟩ (f s)) :
    Leads P Q F (modify f : ExceptT ε (StateM σ) PUnit) := by
  intro s hs
  refine ⟨?_, fun e t hrun => by cases hrun⟩
  intro a t hrun
  cases hrun
  exact h s hs

theorem leads_bind {x : ExceptT ε (StateM σ) β} {f : β → ExceptT ε (StateM σ) α}
    (hx : Leads P R F x) (hf : ∀ b, Leads (R b) Q F (f b)) : Leads P Q F (x >>= f) := by
  intro s hs
  constructor
  · intro a t hrun
    obtain ⟨b, u, hfirst, hnext⟩ := runStep_bind_ok.mp hrun
    exact (hf b u ((hx s hs).1 b u hfirst)).1 a t hnext
  · intro e t hrun
    rcases runStep_bind_error.mp hrun with hfirst | ⟨b, u, hfirst, hnext⟩
    · exact (hx s hs).2 e t hfirst
    · exact (hf b u ((hx s hs).1 b u hfirst)).2 e t hnext

/-- A step that keeps a property comes first. -/
theorem leads_then {x : ExceptT ε (StateM σ) β} {f : β → ExceptT ε (StateM σ) α}
    (hx : Leads P (fun _ => P) F x) (hf : ∀ b, Leads P Q F (f b)) : Leads P Q F (x >>= f) :=
  leads_bind hx hf

theorem leads_get_bind {f : σ → ExceptT ε (StateM σ) α}
    (h : ∀ s, P s → Leads (s = ·) Q F (f s)) : Leads P Q F (get >>= f) := by
  intro s hs
  rw [runStep_bind_of_ok (runStep_get s)]
  exact h s hs s rfl

theorem leads_ite {c : Prop} [Decidable c] {x y : ExceptT ε (StateM σ) α}
    (hx : c → Leads P Q F x) (hy : ¬c → Leads P Q F y) : Leads P Q F (if c then x else y) := by
  by_cases h : c
  · rw [if_pos h]
    exact hx h
  · rw [if_neg h]
    exact hy h

/-- A loop that goes through all of a list. -/
theorem leads_forIn {step : α → ExceptT ε (StateM σ) β} {as : List α}
    (h : ∀ a ∈ as, Leads P (fun _ => P) F (step a)) :
    Leads P (fun _ => P) F (do
      for a in as do
        let _ ← step a) := by
  refine leads_then (β := PUnit) ?_ fun _ => leads_pure fun _ hs => hs
  induction as with
  | nil => exact leads_pure fun _ hs => hs
  | cons a as ih =>
    rw [List.forIn_cons, bind_assoc]
    refine leads_then (h a List.mem_cons_self) fun _ => ?_
    rw [pure_bind]
    exact ih fun a' ha' => h a' (List.mem_cons_of_mem a ha')

/-- Results one for each member of a list. -/
theorem leads_mapM {f : β → ExceptT ε (StateM σ) α} {bs : List β} {Q : β → α → Prop}
    (h : ∀ b ∈ bs, Leads P (fun a s => P s ∧ Q b a) F (f b)) :
    Leads P (fun as s => P s ∧ List.Forall₂ Q bs as) F (bs.mapM f) := by
  induction bs with
  | nil => exact leads_pure fun s hs => ⟨hs, .nil⟩
  | cons b bs ih =>
    have hrest := ih fun b' hb' => h b' (List.mem_cons_of_mem b hb')
    rw [List.mapM_cons]
    refine leads_bind (h b List.mem_cons_self) fun a => ?_
    refine leads_bind (R := fun as s => P s ∧ List.Forall₂ Q (b :: bs) (a :: as)) ?_
      fun as => leads_pure fun s hs => hs
    intro s hs
    refine ⟨?_, (hrest s hs.1).2⟩
    intro as t hrun
    obtain ⟨ht, has⟩ := (hrest s hs.1).1 as t hrun
    exact ⟨ht, .cons hs.2 has⟩

/-- Lists of steps that come to the same in every state that the steps before may leave. -/
theorem runStep_mapM_congr {f : α → ExceptT ε (StateM σ) γ} {g : β → ExceptT ε (StateM σ) γ}
    {as : List α} {bs : List β} {s : σ}
    (h : List.Forall₂ (fun a b => ∀ s, P s → runStep (f a) s = runStep (g b) s) as bs)
    (hkeeps : ∀ a ∈ as, Leads P (fun _ => P) F (f a)) (hs : P s) :
    runStep (as.mapM f) s = runStep (bs.mapM g) s := by
  induction h generalizing s with
  | nil => rfl
  | @cons a b as bs hfirst _ ih =>
    rw [List.mapM_cons, List.mapM_cons, runStep_bind, runStep_bind, ← hfirst s hs]
    rcases hrun : runStep (f a) s with ⟨e | made, t⟩
    · rfl
    · have ht := (hkeeps a List.mem_cons_self s hs).1 made t hrun
      simp only [runStep_bind, ih (fun a' ha' => hkeeps a' (List.mem_cons_of_mem a ha')) ht]

end

/-! ### Steps that have one outcome -/

/-- From all states with a property `P` the step has one outcome, and it keeps the property. -/
def Decided (P : σ → Prop) (step : ExceptT ε (StateM σ) α) : Prop :=
  ∃ outcome, ∀ s, P s → (runStep step s).1 = outcome ∧ P (runStep step s).2

section

variable {P : σ → Prop}

theorem decided_pure (a : α) : Decided P (pure a : ExceptT ε (StateM σ) α) :=
  ⟨.ok a, fun _ hs => ⟨rfl, hs⟩⟩

theorem decided_throw (e : ε) : Decided P (throw e : ExceptT ε (StateM σ) α) :=
  ⟨.error e, fun _ hs => ⟨rfl, hs⟩⟩

theorem decided_mk (outcome : Except ε α) :
    Decided P (ExceptT.mk (pure outcome) : ExceptT ε (StateM σ) α) :=
  ⟨outcome, fun _ hs => ⟨rfl, hs⟩⟩

theorem decided_modify {f : σ → σ} (h : ∀ s, P s → P (f s)) :
    Decided P (modify f : ExceptT ε (StateM σ) PUnit) :=
  ⟨.ok ⟨⟩, fun s hs => ⟨rfl, h s hs⟩⟩

theorem decided_bind {x : ExceptT ε (StateM σ) α} {f : α → ExceptT ε (StateM σ) β}
    (hx : Decided P x) (hf : ∀ a, Decided P (f a)) : Decided P (x >>= f) := by
  obtain ⟨first, hx⟩ := hx
  cases first with
  | error e =>
    refine ⟨.error e, ?_⟩
    intro s hs
    obtain ⟨hfirst, ht⟩ := hx s hs
    rw [runStep_bind_of_error (Prod.ext hfirst rfl)]
    exact ⟨rfl, ht⟩
  | ok a =>
    obtain ⟨outcome, hf⟩ := hf a
    refine ⟨outcome, ?_⟩
    intro s hs
    obtain ⟨hfirst, ht⟩ := hx s hs
    rw [runStep_bind_of_ok (Prod.ext hfirst rfl)]
    exact hf _ ht

theorem decided_tryCatch {x : ExceptT ε (StateM σ) α} {handle : ε → ExceptT ε (StateM σ) α}
    (hx : Decided P x) (hhandle : ∀ e, Decided P (handle e)) :
    Decided P (tryCatch x handle) := by
  obtain ⟨tried, hx⟩ := hx
  cases tried with
  | ok a =>
    refine ⟨.ok a, ?_⟩
    intro s hs
    have htried := hx s hs
    rw [runStep_tryCatch]
    rcases hrun : runStep x s with ⟨e | b, t⟩ <;> rw [hrun] at htried
    · cases htried.1
    · exact htried
  | error e =>
    obtain ⟨outcome, hhandle⟩ := hhandle e
    refine ⟨outcome, ?_⟩
    intro s hs
    have htried := hx s hs
    rw [runStep_tryCatch]
    rcases hrun : runStep x s with ⟨e' | b, t⟩ <;> rw [hrun] at htried
    · cases htried.1
      exact hhandle t htried.2
    · cases htried.1

theorem decided_mapM {f : α → ExceptT ε (StateM σ) β} {as : List α}
    (h : ∀ a ∈ as, Decided P (f a)) : Decided P (as.mapM f) := by
  induction as with
  | nil => exact decided_pure []
  | cons a as ih =>
    rw [List.mapM_cons]
    refine decided_bind (h a List.mem_cons_self) fun b => ?_
    refine decided_bind (ih fun a' ha' => h a' (List.mem_cons_of_mem a ha')) fun bs => ?_
    exact decided_pure (b :: bs)

/-- A step that has one outcome has it in any two states. -/
theorem Decided.same {step : ExceptT ε (StateM σ) α} (h : Decided P step) {s t : σ} (hs : P s)
    (ht : P t) : (runStep step s).1 = (runStep step t).1 := by
  obtain ⟨outcome, h⟩ := h
  rw [(h s hs).1, (h t ht).1]

theorem Decided.keeps {step : ExceptT ε (StateM σ) α} (h : Decided P step) {s : σ} (hs : P s) :
    P (runStep step s).2 := by
  obtain ⟨outcome, h⟩ := h
  exact (h s hs).2

/-- Steps that have one outcome each come to what they come to when each is the first. -/
theorem runStep_mapM_of_decided {f : α → ExceptT ε (StateM σ) β} {as : List α}
    (h : ∀ a ∈ as, Decided P (f a)) {s t : σ} (hs : P s) (ht : P t) :
    (runStep (as.mapM f) t).1 = as.mapM fun a => (runStep (f a) s).1 := by
  induction as generalizing t with
  | nil => rfl
  | cons a as ih =>
    have hfirst := h a List.mem_cons_self
    have hrest := fun u hu => ih (fun a' ha' => h a' (List.mem_cons_of_mem a ha')) (t := u) hu
    rw [List.mapM_cons, List.mapM_cons, ← hfirst.same ht hs, runStep_bind]
    have hu := hfirst.keeps ht
    rcases hrun : runStep (f a) t with ⟨e | b, u⟩
    · rfl
    · rw [hrun] at hu
      simp only [runStep_bind]
      have hlater := hrest u hu
      rcases hrun : runStep (as.mapM f) u with ⟨e | bs, v⟩ <;> rw [hrun] at hlater
      · rw [← hlater]
        rfl
      · rw [← hlater]
        rfl

end

/-! ### Two runs -/

/-- From states that are related, two steps that both succeed have one result and lead to states
that are related again. -/
def Agree (R : σ → σ → Prop) (x y : ExceptT ε (StateM σ) α) : Prop :=
  ∀ s t, R s t → ∀ a s' b t', runStep x s = (.ok a, s') → runStep y t = (.ok b, t') →
    a = b ∧ R s' t'

section

variable {R : σ → σ → Prop}

theorem agree_pure (a : α) : Agree R (pure a : ExceptT ε (StateM σ) α) (pure a) := by
  intro s t hst b s' c t' hx hy
  cases hx
  cases hy
  exact ⟨rfl, hst⟩

/-- A step that fails agrees with any other. -/
theorem agree_throw {e : ε} {y : ExceptT ε (StateM σ) α} : Agree R (throw e) y := by
  intro s t hst a s' b t' hx
  cases hx

theorem agree_mk_bind {outcome : Except ε β} {f g : β → ExceptT ε (StateM σ) α}
    (h : ∀ b, outcome = .ok b → Agree R (f b) (g b)) :
    Agree R (ExceptT.mk (pure outcome) >>= f) (ExceptT.mk (pure outcome) >>= g) := by
  cases outcome with
  | error e => exact fun s t _ a s' b t' hx => by cases hx
  | ok b => exact h b rfl

theorem agree_modify {f g : σ → σ} (h : ∀ s t, R s t → R (f s) (g t)) :
    Agree R (modify f : ExceptT ε (StateM σ) PUnit) (modify g) := by
  intro s t hst a s' b t' hx hy
  cases hx
  cases hy
  exact ⟨rfl, h s t hst⟩

theorem agree_bind {x y : ExceptT ε (StateM σ) β} {f g : β → ExceptT ε (StateM σ) α}
    (hxy : Agree R x y) (hfg : ∀ b, Agree R (f b) (g b)) : Agree R (x >>= f) (y >>= g) := by
  intro s t hst a s' b t' hx hy
  obtain ⟨c, u, hx, hf⟩ := runStep_bind_ok.mp hx
  obtain ⟨d, v, hy, hg⟩ := runStep_bind_ok.mp hy
  obtain ⟨rfl, huv⟩ := hxy s t hst c u d v hx hy
  exact hfg c u v huv a s' b t' hf hg

theorem agree_get_bind {f g : σ → ExceptT ε (StateM σ) α}
    (h : ∀ s t, R s t → Agree R (f s) (g t)) : Agree R (get >>= f) (get >>= g) := by
  intro s t hst
  rw [runStep_bind_of_ok (runStep_get s), runStep_bind_of_ok (runStep_get t)]
  exact h s t hst s t hst

theorem agree_forIn {f g : α → ExceptT ε (StateM σ) β} {as : List α}
    (h : ∀ a ∈ as, Agree R (f a) (g a)) :
    Agree R (do
      for a in as do
        let _ ← f a) (do
      for a in as do
        let _ ← g a) := by
  refine agree_bind ?_ fun _ => agree_pure _
  induction as with
  | nil => exact agree_pure _
  | cons a as ih =>
    rw [List.forIn_cons, List.forIn_cons, bind_assoc, bind_assoc]
    refine agree_bind (h a List.mem_cons_self) fun _ => ?_
    rw [pure_bind, pure_bind]
    exact ih fun a' ha' => h a' (List.mem_cons_of_mem a ha')

end

/-! ### Runs side by side -/

/-- From states that are related two steps end alike: with results of which the second is made from
the first by `f`, or with one failure; and in states that are related again. -/
def Parallel (R : σ → σ → Prop) (f : α → β) (x : ExceptT ε (StateM σ) α)
    (y : ExceptT ε (StateM σ) β) : Prop :=
  ∀ s t, R s t → (runStep y t).1 = (runStep x s).1.map f ∧ R (runStep x s).2 (runStep y t).2

section

variable {R : σ → σ → Prop}

theorem parallel_pure {f : α → β} {a : α} {b : β} (h : b = f a) :
    Parallel R f (pure a : ExceptT ε (StateM σ) α) (pure b) :=
  fun _ _ hst => ⟨congrArg Except.ok h, hst⟩

theorem parallel_throw {f : α → β} (e : ε) :
    Parallel R f (throw e : ExceptT ε (StateM σ) α) (throw e) :=
  fun _ _ hst => ⟨rfl, hst⟩

theorem parallel_mk (outcome : Except ε α) :
    Parallel R id (ExceptT.mk (pure outcome) : ExceptT ε (StateM σ) α)
      (ExceptT.mk (pure outcome)) := by
  intro s t hst
  refine ⟨?_, hst⟩
  cases outcome <;> rfl

theorem parallel_modify {f g : σ → σ} (h : ∀ s t, R s t → R (f s) (g t)) :
    Parallel R id (modify f : ExceptT ε (StateM σ) PUnit) (modify g) :=
  fun s t hst => ⟨rfl, h s t hst⟩

theorem parallel_bind {γ' : Type} {f : α → β} {g : γ → γ'} {x : ExceptT ε (StateM σ) α}
    {y : ExceptT ε (StateM σ) β} {next : α → ExceptT ε (StateM σ) γ}
    {next' : β → ExceptT ε (StateM σ) γ'} (hxy : Parallel R f x y)
    (hnext : ∀ a, Parallel R g (next a) (next' (f a))) :
    Parallel R g (x >>= next) (y >>= next') := by
  intro s t hst
  obtain ⟨hsame, hst'⟩ := hxy s t hst
  rw [runStep_bind, runStep_bind]
  rcases hx : runStep x s with ⟨e | a, s'⟩ <;> rcases hy : runStep y t with ⟨e' | b, t'⟩ <;>
    rw [hx, hy] at hsame hst' <;> cases hsame
  · exact ⟨rfl, hst'⟩
  · exact hnext a s' t' hst'

theorem parallel_get_bind {f : α → β} {next : σ → ExceptT ε (StateM σ) α}
    {next' : σ → ExceptT ε (StateM σ) β} (h : ∀ s t, R s t → Parallel R f (next s) (next' t)) :
    Parallel R f (get >>= next) (get >>= next') := by
  intro s t hst
  rw [runStep_bind_of_ok (runStep_get s), runStep_bind_of_ok (runStep_get t)]
  exact h s t hst s t hst

theorem parallel_ite {f : α → β} {c : Prop} [Decidable c] {x x' : ExceptT ε (StateM σ) α}
    {y y' : ExceptT ε (StateM σ) β} (hx : Parallel R f x y) (hx' : Parallel R f x' y') :
    Parallel R f (if c then x else x') (if c then y else y') := by
  by_cases hc : c
  · simpa only [if_pos hc] using hx
  · simpa only [if_neg hc] using hx'

/-- A loop through one list. -/
theorem parallel_forIn {f : β → γ} {x : α → ExceptT ε (StateM σ) β}
    {y : α → ExceptT ε (StateM σ) γ} {as : List α} (h : ∀ a, Parallel R f (x a) (y a)) :
    Parallel R id (do
      for a in as do
        let _ ← x a) (do
      for a in as do
        let _ ← y a) := by
  refine parallel_bind (f := id) ?_ fun _ => parallel_pure rfl
  induction as with
  | nil => exact parallel_pure rfl
  | cons a as ih =>
    rw [List.forIn_cons, List.forIn_cons, bind_assoc, bind_assoc]
    refine parallel_bind (h a) fun _ => ?_
    rw [pure_bind, pure_bind]
    exact ih

theorem parallel_mapM {f : β → γ} {x : α → ExceptT ε (StateM σ) β}
    {y : α → ExceptT ε (StateM σ) γ} {as : List α} (h : ∀ a, Parallel R f (x a) (y a)) :
    Parallel R (List.map f) (as.mapM x) (as.mapM y) := by
  induction as with
  | nil => exact parallel_pure rfl
  | cons a as ih =>
    rw [List.mapM_cons, List.mapM_cons]
    exact parallel_bind (h a) fun _ => parallel_bind ih fun _ => parallel_pure rfl

end

end ApiClients
