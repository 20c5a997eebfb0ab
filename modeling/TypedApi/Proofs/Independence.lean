import Mathlib.Data.List.Pairwise
import Mathlib.Data.List.Perm.Basic

/-!
Actions on a state that give a result, and when it does not matter in which order they are
performed.
-/
namespace TypedApi

section Independent

variable {σ α β γ ε : Type} {a : σ → α × σ} {b : σ → β × σ}

/-- Neither action sees what the other does, and their changes add up. -/
def Independent (a : σ → α × σ) (b : σ → β × σ) : Prop :=
  ∀ s, (a (b s).2).1 = (a s).1 ∧ (b (a s).2).1 = (b s).1 ∧ (a (b s).2).2 = (b (a s).2).2

theorem Independent.symm (h : Independent a b) : Independent b a :=
  fun s => ⟨(h s).2.1, (h s).1, (h s).2.2.symm⟩

theorem Independent.map (h : Independent a b) (f : α → γ) :
    Independent (fun s => (f (a s).1, (a s).2)) b :=
  fun s => ⟨congrArg f (h s).1, (h s).2⟩

/-- Goes on with the result of the first action unless it has failed. -/
def andThen (a : σ → Except ε α × σ) (next : α → σ → Except ε γ × σ) (s : σ) : Except ε γ × σ :=
  match a s with
  | (.error e, s) => (.error e, s)
  | (.ok r, s) => next r s

theorem andThen_eq (a : σ → Except ε α × σ) (next : α → σ → Except ε γ × σ) (s : σ) :
    andThen a next s =
      match (a s).1 with
      | .error e => (.error e, (a s).2)
      | .ok r => next r (a s).2 := by
  unfold andThen
  rcases a s with ⟨result, s⟩
  cases result with
  | error e => rfl
  | ok r => rfl

theorem Independent.andThen {a : σ → Except ε α × σ} {next : α → σ → Except ε γ × σ}
    (h : Independent a b) (hnext : ∀ r, Independent (next r) b) :
    Independent (andThen a next) b := by
  intro s
  obtain ⟨hresult, hb, hstate⟩ := h s
  rw [andThen_eq, andThen_eq, hresult, hstate]
  cases (a s).1 with
  | error e => exact ⟨rfl, hb, rfl⟩
  | ok r =>
    obtain ⟨hresult', hb', hstate'⟩ := hnext r (a s).2
    exact ⟨hresult', hb'.trans hb, hstate'⟩

end Independent

section Perform

variable {κ σ τ ρ : Type}

/-- Performs the actions of keys one after the other. -/
def perform (act : κ → σ → ρ × σ) : List κ → σ → List (κ × ρ) × σ
  | [], s => ([], s)
  | k :: ks, s =>
    let (result, s) := act k s
    let (results, s) := perform act ks s
    ((k, result) :: results, s)

theorem perform_cons (act : κ → σ → ρ × σ) (k : κ) (ks : List κ) (s : σ) :
    perform act (k :: ks) s =
      ((k, (act k s).1) :: (perform act ks (act k s).2).1, (perform act ks (act k s).2).2) := rfl

theorem perform_append (act : κ → σ → ρ × σ) (ks ls : List κ) (s : σ) :
    perform act (ks ++ ls) s =
      ((perform act ks s).1 ++ (perform act ls (perform act ks s).2).1,
        (perform act ls (perform act ks s).2).2) := by
  induction ks generalizing s with
  | nil => rfl
  | cons k ks ih => rw [List.cons_append, perform_cons, perform_cons, ih, List.cons_append]

theorem map_fst_perform (act : κ → σ → ρ × σ) (ks : List κ) (s : σ) :
    (perform act ks s).1.map (·.1) = ks := by
  induction ks generalizing s with
  | nil => rfl
  | cons k ks ih => rw [perform_cons, List.map_cons, ih]

theorem perform_map {ι : Type} (act : κ → σ → ρ × σ) (f : ι → κ) (is : List ι) (s : σ) :
    perform act (is.map f) s =
      ((perform (fun i => act (f i)) is s).1.map (fun r => (f r.1, r.2)),
        (perform (fun i => act (f i)) is s).2) := by
  induction is generalizing s with
  | nil => rfl
  | cons i is ih => rw [List.map_cons, perform_cons, perform_cons, ih, List.map_cons]

/-- Independent actions come to the same in every order. -/
theorem perform_perm {act : κ → σ → ρ × σ} {order ks : List κ} (hperm : order.Perm ks)
    (h : ks.Pairwise fun k l => Independent (act k) (act l)) (s : σ) :
    (perform act order s).1.Perm (perform act ks s).1 ∧
      (perform act order s).2 = (perform act ks s).2 := by
  induction hperm generalizing s with
  | nil => exact ⟨.refl _, rfl⟩
  | cons k _ ih =>
    obtain ⟨hresults, hstate⟩ := ih (List.pairwise_cons.mp h).2 (act k s).2
    rw [perform_cons, perform_cons]
    exact ⟨hresults.cons _, hstate⟩
  | swap k l ks =>
    -- The list is `k :: l :: ks`, performed with `l` first.
    obtain ⟨hk, hl, hstate⟩ := (List.pairwise_cons.mp h).1 l (by simp) s
    simp only [perform_cons]
    rw [hl, hk, hstate]
    exact ⟨.swap _ _ _, rfl⟩
  | trans hfirst hsecond ihfirst ihsecond =>
    have hmiddle := (hsecond.pairwise_iff fun h => Independent.symm h).mpr h
    obtain ⟨hresults, hstate⟩ := ihfirst hmiddle s
    obtain ⟨hresults', hstate'⟩ := ihsecond h s
    exact ⟨hresults.trans hresults', hstate.trans hstate'⟩

/-- Actions that correspond on related states are performed alike. -/
theorem perform_related {act : κ → σ → ρ × σ} {act' : κ → τ → ρ × τ} {R : σ → τ → Prop}
    {ks : List κ}
    (h : ∀ k ∈ ks, ∀ s t, R s t → (act k s).1 = (act' k t).1 ∧ R (act k s).2 (act' k t).2)
    {s : σ} {t : τ} (hst : R s t) :
    (perform act ks s).1 = (perform act' ks t).1 ∧
      R (perform act ks s).2 (perform act' ks t).2 := by
  induction ks generalizing s t with
  | nil => exact ⟨rfl, hst⟩
  | cons k ks ih =>
    obtain ⟨hk, hks⟩ := List.forall_mem_cons.mp h
    obtain ⟨hresult, hnext⟩ := hk s t hst
    obtain ⟨hresults, hlast⟩ := ih hks hnext
    rw [perform_cons, perform_cons, hresult, hresults]
    exact ⟨rfl, hlast⟩

end Perform

end TypedApi
