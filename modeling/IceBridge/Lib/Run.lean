import Mathlib.Data.List.Basic

/-! Runs of a deterministic partial step `σ → ε → Option σ`: a list of events
is executed one after the other, and an event that is not enabled ends the run. -/

namespace Run
variable {σ ε : Type*} {step : σ → ε → Option σ}

def exec (step : σ → ε → Option σ) : σ → List ε → Option σ
  | s, [] => some s
  | s, e :: es => (step s e).bind fun t => exec step t es

/-- `P` holds in every state the run visits, its first state included. -/
def Always (step : σ → ε → Option σ) (P : σ → Prop) : σ → List ε → Prop
  | s, [] => P s
  | s, e :: es => P s ∧ ∀ t, step s e = some t → Always step P t es

/-- `C` holds of every step the run takes: of its event, in the state it is taken from. -/
def EachStep (step : σ → ε → Option σ) (C : σ → ε → Prop) : σ → List ε → Prop
  | _, [] => True
  | s, e :: es => ∀ t, step s e = some t → C s e ∧ EachStep step C t es

/-- `C` holds of every event of the run, of one that is not enabled too. -/
def EachEvent (step : σ → ε → Option σ) (C : σ → ε → Prop) : σ → List ε → Prop
  | _, [] => True
  | s, e :: es => C s e ∧ ∀ t, step s e = some t → EachEvent step C t es

instance decidableAlways {P : σ → Prop} [DecidablePred P] :
    ∀ (s : σ) (es : List ε), Decidable (Always step P s es)
  | s, [] => inferInstanceAs (Decidable (P s))
  | s, e :: es =>
    match h : step s e with
    | none => decidable_of_iff (P s) (by simp [Always, h])
    | some t =>
      letI := decidableAlways (P := P) t es
      decidable_of_iff (P s ∧ Always step P t es) (by simp [Always, h])

theorem Always.start {P : σ → Prop} {s : σ} {es : List ε} (h : Always step P s es) : P s := by
  cases es with
  | nil => exact h
  | cons e es => exact h.1

theorem always_iff_prefixes {P : σ → Prop} (s : σ) (es : List ε) :
    Always step P s es ↔ ∀ pre, pre <+: es → ∀ t, exec step s pre = some t → P t := by
  induction es generalizing s with
  | nil =>
    constructor
    · intro h pre hpre t ht
      rw [List.prefix_nil] at hpre
      subst hpre
      exact Option.some.inj ht ▸ h
    · intro h
      exact h [] (List.prefix_refl _) s rfl
  | cons e es ih =>
    constructor
    · rintro ⟨hs, htail⟩ pre hpre t ht
      cases pre with
      | nil => exact Option.some.inj ht ▸ hs
      | cons d ds =>
        obtain ⟨rfl, hds⟩ := List.cons_prefix_cons.mp hpre
        obtain ⟨u, hu, hrun⟩ := Option.bind_eq_some_iff.mp ht
        exact (ih u).mp (htail u hu) ds hds t hrun
    · intro h
      refine ⟨h [] List.nil_prefix s rfl, fun u hu => (ih u).mpr fun ds hds t ht => ?_⟩
      refine h (e :: ds) (List.cons_prefix_cons.mpr ⟨rfl, hds⟩) t ?_
      simpa [exec, hu] using ht

theorem Always.mono {P Q : σ → Prop} (hPQ : ∀ s, P s → Q s) {s : σ} {es : List ε}
    (h : Always step P s es) : Always step Q s es :=
  (always_iff_prefixes s es).mpr fun pre hpre t ht => hPQ t ((always_iff_prefixes s es).mp h pre hpre t ht)

theorem always_of_eachStep {I : σ → Prop} {C : σ → ε → Prop}
    (hstep : ∀ s e t, I s → C s e → step s e = some t → I t) {s : σ} {es : List ε}
    (hs : I s) (hC : EachStep step C s es) : Always step I s es := by
  induction es generalizing s with
  | nil => exact hs
  | cons e es ih =>
    refine ⟨hs, fun t ht => ?_⟩
    obtain ⟨hCe, hCes⟩ := hC t ht
    exact ih (hstep s e t hs hCe ht) hCes

theorem always_of_invariant {I : σ → Prop} (hstep : ∀ s e t, I s → step s e = some t → I t)
    {s : σ} (hs : I s) (es : List ε) : Always step I s es := by
  induction es generalizing s with
  | nil => exact hs
  | cons e es ih => exact ⟨hs, fun t ht => ih (hstep s e t hs ht)⟩

/-- Let `J` imply `P`, be kept by the steps that meet `C`, and let every other step taken from
a state with `J` end in a state without `P`. Then `P` holds along the whole run exactly when
every step meets `C`. -/
theorem always_iff_eachStep_of_kept {J P : σ → Prop} {C : σ → ε → Prop} (hP : ∀ s, J s → P s)
    (hJ : ∀ s e t, J s → step s e = some t → C s e → J t)
    (hbad : ∀ s e t, J s → step s e = some t → ¬ C s e → ¬ P t)
    {s : σ} (hs : J s) (es : List ε) : Always step P s es ↔ EachStep step C s es := by
  induction es generalizing s with
  | nil => exact ⟨fun _ => trivial, fun _ => hP s hs⟩
  | cons e es ih =>
    constructor
    · rintro ⟨-, htail⟩ t ht
      have hC : C s e := by
        by_contra hC
        exact hbad s e t hs ht hC (htail t ht).start
      exact ⟨hC, (ih (hJ s e t hs ht hC)).mp (htail t ht)⟩
    · intro hC
      refine ⟨hP s hs, fun t ht => ?_⟩
      obtain ⟨hCe, hCes⟩ := hC t ht
      exact (ih (hJ s e t hs ht hCe)).mpr hCes

/-- Under an invariant `I`, let a step taken from a state with `P` keep `P` exactly when the
step meets `C`. Then `P` holds along the whole run exactly when every step meets `C`. -/
theorem always_iff_eachStep {I P : σ → Prop} {C : σ → ε → Prop}
    (hI : ∀ s e t, I s → step s e = some t → I t)
    (hP : ∀ s e t, I s → P s → step s e = some t → (P t ↔ C s e))
    {s : σ} (hs : I s) (hPs : P s) (es : List ε) :
    Always step P s es ↔ EachStep step C s es := by
  refine always_iff_eachStep_of_kept (J := fun s => I s ∧ P s) (fun _ h => h.2) ?_ ?_ ⟨hs, hPs⟩ es
  · exact fun s e t h ht hC => ⟨hI s e t h.1 ht, (hP s e t h.1 h.2 ht).mpr hC⟩
  · exact fun s e t h ht hC hPt => hC ((hP s e t h.1 h.2 ht).mp hPt)

/-- When each step commutes with the abstraction `abs` under an invariant, whole runs do. -/
theorem exec_map {τ : Type*} {abs : σ → τ} {spec : τ → ε → Option τ} {I : σ → Prop}
    (hI : ∀ s e t, I s → step s e = some t → I t)
    (hspec : ∀ s e, I s → (step s e).map abs = spec (abs s) e) {s : σ} (hs : I s) (es : List ε) :
    (exec step s es).map abs = exec spec (abs s) es := by
  induction es generalizing s with
  | nil => rfl
  | cons e es ih =>
    rw [exec, exec, ← hspec s e hs]
    cases hstep : step s e with
    | none => rfl
    | some t => exact ih (hI s e t hs hstep)

theorem exec_concat {s t u : σ} {e : ε} {es : List ε} (ht : exec step s es = some t)
    (hu : step t e = some u) : exec step s (es ++ [e]) = some u := by
  induction es generalizing s with
  | nil =>
    rw [← Option.some.inj ht] at hu
    exact Option.bind_eq_some_iff.mpr ⟨u, hu, rfl⟩
  | cons d ds ih =>
    obtain ⟨v, hv, hrun⟩ := Option.bind_eq_some_iff.mp ht
    exact Option.bind_eq_some_iff.mpr ⟨v, hv, ih hrun⟩

theorem exec_invariant {I : σ → Prop} (hI : ∀ s e t, I s → step s e = some t → I t) {s t : σ}
    (hs : I s) {es : List ε} (ht : exec step s es = some t) : I t :=
  (always_iff_prefixes s es).mp (always_of_invariant hI hs es) es (List.prefix_refl es) t ht

theorem exec_within {I P : σ → Prop} (hstep : ∀ s e t, I s → step s e = some t → P t → I t)
    {s t : σ} (hs : I s) {es : List ε} (hP : Always step P s es) (ht : exec step s es = some t) :
    I t := by
  induction es generalizing s with
  | nil => exact Option.some.inj ht ▸ hs
  | cons e es ih =>
    obtain ⟨u, hu, hrun⟩ := Option.bind_eq_some_iff.mp ht
    exact ih (hstep s e u hs hu (hP.2 u hu).start) (hP.2 u hu) hrun

theorem foldlM_preserves {I : σ → List ε → Prop}
    (hstep : ∀ s e es t, I s (e :: es) → step s e = some t → I t es) {s t : σ} {es : List ε}
    (hs : I s es) (ht : es.foldlM step s = some t) : I t [] := by
  induction es generalizing s with
  | nil => exact Option.some.inj ht ▸ hs
  | cons e es ih =>
    rw [List.foldlM_cons] at ht
    obtain ⟨u, hu, hrest⟩ := Option.bind_eq_some_iff.mp ht
    exact ih (hstep s e es u hs hu) hrest

theorem EachStep.cons {C : σ → ε → Prop} {s t : σ} {e : ε} {es : List ε} (ht : step s e = some t)
    (hC : C s e) (h : EachStep step C t es) : EachStep step C s (e :: es) := by
  intro u hu
  obtain rfl := Option.some.inj (ht.symm.trans hu)
  exact ⟨hC, h⟩

theorem eachStep_of_forall {C : σ → ε → Prop} (s : σ) {es : List ε} (h : ∀ e ∈ es, ∀ s, C s e) :
    EachStep step C s es := by
  induction es generalizing s with
  | nil => trivial
  | cons e es ih =>
    exact fun t _ => ⟨h e List.mem_cons_self s, ih t fun d hd => h d (List.mem_cons_of_mem e hd)⟩

theorem eachStep_of_invariant {I : σ → Prop} {C : σ → ε → Prop}
    (hI : ∀ s e t, I s → step s e = some t → I t) (hC : ∀ s e, I s → C s e) {s : σ} (hs : I s)
    (es : List ε) : EachStep step C s es := by
  induction es generalizing s with
  | nil => trivial
  | cons e es ih => exact fun t ht => ⟨hC s e hs, ih (hI s e t hs ht)⟩

theorem EachStep.of_kept {I : σ → Prop} {C D : σ → ε → Prop}
    (hI : ∀ s e t, I s → C s e → step s e = some t → I t)
    (hD : ∀ s e, I s → C s e → D s e) {s : σ} (hs : I s) {es : List ε}
    (h : EachStep step C s es) : EachStep step D s es := by
  induction es generalizing s with
  | nil => trivial
  | cons e es ih =>
    intro t ht
    obtain ⟨hC, htail⟩ := h t ht
    exact ⟨hD s e hs hC, ih (hI s e t hs hC ht) htail⟩

theorem EachStep.of_exec {C : σ → ε → Prop} {s t : σ} {as bs : List ε}
    (h : EachStep step C s (as ++ bs)) (ht : exec step s as = some t) : EachStep step C t bs := by
  induction as generalizing s with
  | nil => exact Option.some.inj ht ▸ h
  | cons e es ih =>
    obtain ⟨u, hu, hrun⟩ := Option.bind_eq_some_iff.mp ht
    exact ih (h u hu).2 hrun

theorem always_of_eachEvent {I : σ → Prop} {C : σ → ε → Prop}
    (hstep : ∀ s e, I s → C s e → ∃ t, step s e = some t ∧ I t) {s : σ} {es : List ε}
    (hs : I s) (hC : EachEvent step C s es) :
    (exec step s es).isSome = true ∧ Always step I s es := by
  induction es generalizing s with
  | nil => exact ⟨rfl, hs⟩
  | cons e es ih =>
    obtain ⟨t, ht, hI⟩ := hstep s e hs hC.1
    obtain ⟨hexec, hall⟩ := ih hI (hC.2 t ht)
    refine ⟨by simpa [exec, ht] using hexec, hs, fun u hu => ?_⟩
    obtain rfl := Option.some.inj (ht.symm.trans hu)
    exact hall

theorem EachEvent.congr_of {I : σ → Prop} {W C D : σ → ε → Prop}
    (hI : ∀ s e t, I s → step s e = some t → I t)
    (h : ∀ s e, I s → W s e → (C s e ↔ D s e)) {s : σ} (hs : I s) {es : List ε}
    (hW : EachEvent step W s es) : EachEvent step C s es ↔ EachEvent step D s es := by
  induction es generalizing s with
  | nil => exact Iff.rfl
  | cons e es ih =>
    exact and_congr (h s e hs hW.1) (forall₂_congr fun t ht => ih (hI s e t hs ht) (hW.2 t ht))

theorem eachEvent_of_forall {C : σ → ε → Prop} (h : ∀ s e, C s e) (s : σ) (es : List ε) :
    EachEvent step C s es := by
  induction es generalizing s with
  | nil => trivial
  | cons e es ih => exact ⟨h s e, fun t _ => ih t⟩

theorem eachEvent_congr {I : σ → Prop} {C D : σ → ε → Prop}
    (hI : ∀ s e t, I s → step s e = some t → I t) (h : ∀ s e, I s → (C s e ↔ D s e))
    {s : σ} (hs : I s) (es : List ε) : EachEvent step C s es ↔ EachEvent step D s es :=
  EachEvent.congr_of (W := fun _ _ => True) hI (fun s e hs _ => h s e hs) hs
    (eachEvent_of_forall (fun _ _ => trivial) s es)

end Run
