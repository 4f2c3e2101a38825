/-
# Computations that may fail

What a computation in `Except` that succeeds says about its parts, and the same for computations
that also keep a state.
-/
namespace VectorQuery

variable {ε α β : Type}

theorem ok_of_bind {x : Except ε α} {f : α → Except ε β} {b : β} (h : x >>= f = .ok b) :
    ∃ a, x = .ok a ∧ f a = .ok b := by
  cases x with
  | error e => cases h
  | ok a => exact ⟨a, rfl, h⟩

theorem ok_of_map {x : Except ε α} {f : α → β} {b : β} (h : x.map f = .ok b) :
    ∃ a, x = .ok a ∧ f a = b := by
  cases x with
  | error e => cases h
  | ok a =>
      cases h
      exact ⟨a, rfl, rfl⟩

theorem ok_of_mapError {ε' : Type} {x : Except ε α} {f : ε → ε'} {a : α}
    (h : x.mapError f = .ok a) : x = .ok a := by
  cases x with
  | error e => cases h
  | ok b =>
      cases h
      rfl

theorem ok_of_toOption {x : Except ε α} {a : α} (h : x.toOption = some a) : x = .ok a := by
  cases x with
  | error e => cases h
  | ok b =>
      cases h
      rfl

/-- Whether a computation fails with a given error needs no comparison of its values. -/
instance decidableEqError [DecidableEq ε] (x : Except ε α) (e : ε) : Decidable (x = .error e) :=
  match x with
  | .error e' => decidable_of_iff (e' = e) ⟨congrArg _, Except.error.inj⟩
  | .ok _ => .isFalse nofun

/-! ## With a state -/

section

variable {σ : Type} {y : StateT σ (Except ε) α} {g : α → StateT σ (Except ε) β} {e : Except ε α}
  {s s' : σ} {a : α} {b : β}

theorem run_of_bind (h : (y >>= g) s = .ok (b, s')) :
    ∃ a s₁, y s = .ok (a, s₁) ∧ g a s₁ = .ok (b, s') := by
  obtain ⟨⟨a, s₁⟩, hy, hg⟩ := ok_of_bind (x := y s) h
  exact ⟨a, s₁, hy, hg⟩

theorem bind_run {s₁ : σ} (h : y s = .ok (a, s₁)) : (y >>= g) s = g a s₁ := by
  change (y s >>= fun p => g p.1 p.2) = _
  rw [h]
  rfl

theorem run_of_lift_bind (h : ((liftM e : StateT σ (Except ε) α) >>= g) s = .ok (b, s')) :
    ∃ a, e = .ok a ∧ g a s = .ok (b, s') := by
  cases e with
  | error e => cases h
  | ok a => exact ⟨a, rfl, h⟩

theorem lift_run (h : e = .ok a) : (liftM e : StateT σ (Except ε) α) s = .ok (a, s) := by
  rw [h]
  rfl

end

theorem mapM_of_ok {f : α → Except ε β} {g : α → β} {l : List α}
    (h : ∀ a ∈ l, f a = .ok (g a)) : l.mapM f = .ok (l.map g) := by
  induction l with
  | nil => rfl
  | cons a l ih =>
      rw [List.mapM_cons, h a List.mem_cons_self, ih fun b hb => h b (List.mem_cons_of_mem _ hb)]
      rfl

theorem ok_of_mapM {f : α → Except ε β} {as : List α} {bs : List β} (h : as.mapM f = .ok bs) :
    ∀ a ∈ as, ∃ b, f a = .ok b := by
  induction as generalizing bs with
  | nil => exact fun a ha => absurd ha List.not_mem_nil
  | cons a as ih =>
      rw [List.mapM_cons] at h
      obtain ⟨b, hb, h⟩ := ok_of_bind h
      obtain ⟨bs', hbs, -⟩ := ok_of_bind h
      exact List.forall_mem_cons.2 ⟨⟨b, hb⟩, ih hbs⟩

/-! ## Successes and failures -/

/-- The computation succeeds with a value in `P` or fails with an error in `E`. -/
def Ends (E : ε → Prop) (P : α → Prop) : Except ε α → Prop
  | .ok a => P a
  | .error e => E e

namespace Ends

variable {E : ε → Prop} {P : α → Prop} {Q : β → Prop} {x : Except ε α}

theorem bind (h : Ends E P x) {f : α → Except ε β} (hf : ∀ a, P a → Ends E Q (f a)) :
    Ends E Q (x >>= f) := by
  cases x with
  | error e => exact h
  | ok a => exact hf a h

theorem map (h : Ends E P x) {f : α → β} (hf : ∀ a, P a → Q (f a)) : Ends E Q (x.map f) := by
  cases x with
  | error e => exact h
  | ok a => exact hf a h

theorem of_ok (h : Ends E P x) {a : α} (hx : x = .ok a) : P a := by
  rw [hx] at h
  exact h

theorem exists_ok (h : Ends (fun _ => False) P x) : ∃ a, x = .ok a ∧ P a := by
  cases x with
  | error e => exact h.elim
  | ok a => exact ⟨a, rfl, h⟩

theorem mapM {f : α → Except ε β} {l : List α} (h : ∀ a ∈ l, Ends E Q (f a)) :
    Ends E (fun bs => ∀ b ∈ bs, Q b) (l.mapM f) := by
  induction l with
  | nil => exact fun b hb => absurd hb List.not_mem_nil
  | cons a l ih =>
      rw [List.mapM_cons]
      refine (h a List.mem_cons_self).bind fun b hb => ?_
      exact (ih fun c hc => h c (List.mem_cons_of_mem _ hc)).bind fun bs hbs =>
        List.forall_mem_cons.2 ⟨hb, hbs⟩

/-- A list with an element that fails fails, with an error of some element. -/
theorem mapM_error {f : α → Except ε β} {l : List α} (h : ∀ a ∈ l, Ends E (fun _ => True) (f a))
    {a : α} (ha : a ∈ l) (hfails : ∀ b, f a ≠ .ok b) : ∃ e, l.mapM f = .error e ∧ E e := by
  cases hl : l.mapM f with
  | error e =>
      have hends := mapM h
      rw [hl] at hends
      exact ⟨e, rfl, hends⟩
  | ok bs =>
      obtain ⟨b, hb⟩ := ok_of_mapM hl a ha
      exact absurd hb (hfails b)

/-- A fold ends as its steps do, where what they preserve holds. -/
theorem foldlM {f : β → α → Except ε β} {l : List α} (P : List α → β → Prop)
    (step : ∀ done a rest b, l = done ++ a :: rest → P done b →
      Ends E (P (done ++ [a])) (f b a))
    {b : β} (start : P [] b) : Ends E (P l) (l.foldlM f b) := by
  suffices ∀ rest done b, l = done ++ rest → P done b → Ends E (P l) (rest.foldlM f b) from
    this l [] b rfl start
  intro rest
  induction rest with
  | nil =>
      intro done b hl hp
      rw [hl, List.append_nil]
      exact hp
  | cons a rest ih =>
      intro done b hl hp
      rw [List.foldlM_cons]
      refine (step done a rest b hl hp).bind fun c hc => ih (done ++ [a]) c ?_ hc
      rw [hl, List.append_assoc]
      rfl

end Ends

/-- What each step of a fold that succeeds preserves holds at its end. -/
theorem foldlM_induction {f : β → α → Except ε β} {l : List α} (P : List α → β → Prop)
    (step : ∀ done a rest b b', l = done ++ a :: rest → P done b → f b a = .ok b' →
      P (done ++ [a]) b')
    {b b' : β} (start : P [] b) (h : l.foldlM f b = .ok b') : P l b' := by
  refine (Ends.foldlM (E := fun _ => True) P (fun done a rest b hl hp => ?_) start).of_ok h
  cases hb : f b a with
  | error e => exact trivial
  | ok b' => exact step done a rest b b' hl hp hb

/-- A fold succeeds if each of its steps does where what they preserve holds. -/
theorem foldlM_succeeds {f : β → α → Except ε β} {l : List α} (P : List α → β → Prop)
    (step : ∀ done a rest b, l = done ++ a :: rest → P done b →
      ∃ b', f b a = .ok b' ∧ P (done ++ [a]) b')
    {b : β} (start : P [] b) : ∃ b', l.foldlM f b = .ok b' ∧ P l b' := by
  refine (Ends.foldlM P (fun done a rest b hl hp => ?_) start).exists_ok
  obtain ⟨b', hb, hp'⟩ := step done a rest b hl hp
  rw [hb]
  exact hp'

/-- A fold succeeds where another one does whose steps it follows. -/
theorem foldlM_follows {γ : Type} {R : β → γ → Prop} {f : β → α → Except ε β}
    {g : γ → α → Except ε γ} {l : List α} {b b' : β} {c : γ} (start : R b c)
    (h : l.foldlM f b = .ok b')
    (step : ∀ a ∈ l, ∀ b c b', R b c → f b a = .ok b' → ∃ c', g c a = .ok c' ∧ R b' c') :
    ∃ c', l.foldlM g c = .ok c' ∧ R b' c' := by
  induction l generalizing b c with
  | nil =>
      cases h
      exact ⟨c, rfl, start⟩
  | cons a l ih =>
      rw [List.foldlM_cons] at h
      obtain ⟨b₁, hb, h⟩ := ok_of_bind h
      obtain ⟨c₁, hc, hr⟩ := step a List.mem_cons_self b c b₁ start hb
      rw [List.foldlM_cons, hc]
      exact ih hr h fun d hd => step d (List.mem_cons_of_mem a hd)

end VectorQuery
