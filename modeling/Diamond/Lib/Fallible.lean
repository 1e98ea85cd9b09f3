import Mathlib.Tactic

/-!
# Fallible programs with state

Facts about programs that carry a state and can fail with it, `EStateM`.  A run of a sequence is
taken apart into the runs of its parts; a property that every part keeps, whether it fails or not,
is kept by the whole.
-/

namespace Diamond.Fallible

variable {ε σ α β : Type}

/-- A sequence that cannot fail. -/
lemma state_bind_apply (x : StateM σ α) (f : α → StateM σ β) (s : σ) :
    (x >>= f) s = f (x s).1 (x s).2 := rfl

/-- A program that cannot fail keeps a property of the state. -/
def Keeps (P : σ → Prop) (x : StateM σ α) : Prop := ∀ s, P s → P (x s).2

lemma Keeps.pure {P} (a : α) : Keeps P (pure a : StateM σ α) := fun _ h => h

variable {x : StateM σ α} {f : α → StateM σ β}

lemma Keeps.bind {P} (hx : Keeps P x) (hf : ∀ a, Keeps P (f a)) : Keeps P (x >>= f) :=
  fun s h => hf _ _ (hx s h)

/-- Every answer of a program that cannot fail has a property. -/
def Answers (Q : α → Prop) (x : StateM σ α) : Prop := ∀ s, Q (x s).1

lemma Answers.pure {Q a} (h : Q a) : Answers Q (pure a : StateM σ α) := fun _ => h

lemma Answers.bind {Q R} (hx : Answers Q x)
    (hf : ∀ a, Q a → Answers R (f a)) : Answers R (x >>= f) :=
  fun s => hf _ (hx s) _

/-- What comes first does not matter. -/
lemma Answers.after {R} (hf : ∀ a, Answers R (f a)) : Answers R (x >>= f) := fun _ => hf _ _

variable {x : Except ε α} {f : α → Except ε β}

/-- A sequence that returns, without a state. -/
lemma except_bind_eq_ok {b} : (x >>= f) = .ok b ↔ ∃ a, x = .ok a ∧ f a = .ok b := by
  cases x with
  | error => exact ⟨nofun, nofun⟩
  | ok a => exact ⟨fun h => ⟨a, rfl, h⟩, fun ⟨_, ha, h⟩ => by cases ha; exact h⟩

/-- A sequence that fails, without a state. -/
lemma except_bind_eq_error {e} :
    (x >>= f) = .error e ↔ x = .error e ∨ ∃ a, x = .ok a ∧ f a = .error e := by
  cases x with
  | error =>
    refine ⟨fun h => ?_, ?_⟩
    · cases h
      exact .inl rfl
    · rintro (h | ⟨_, ha, _⟩)
      · cases h
        rfl
      · cases ha
  | ok a =>
    refine ⟨fun h => .inr ⟨a, rfl, h⟩, ?_⟩
    rintro (h | ⟨_, ha, h⟩)
    · cases h
    · cases ha
      exact h

/-- The error of a program without a state is of a kind. -/
def Raises (E : ε → Prop) (x : Except ε α) : Prop := ∀ e, x = .error e → E e

section
variable {E : ε → Prop}

lemma Raises.ok (a : α) : Raises E (.ok a : Except ε α) := nofun

lemma Raises.error {e} (h : E e) : Raises E (.error e : Except ε α) := by
  rintro _ ⟨⟩
  exact h

lemma Raises.bind (hx : Raises E x) (hf : ∀ a, Raises E (f a)) : Raises E (x >>= f) := by
  intro e h
  cases x with
  | error =>
    cases h
    exact hx e rfl
  | ok a => exact hf a e h

/-- A check that raises or goes on. -/
lemma Raises.check {p : Prop} [Decidable p] {x} {f : Unit → Except ε β}
    (hx : Raises E x) (hf : ∀ u, Raises E (f u)) : Raises E (if p then x >>= f else f ()) := by
  split_ifs
  · exact .bind hx hf
  · exact hf ()

end

section
variable {x : EStateM ε σ α} {f : α → EStateM ε σ β} {s s' : σ} {b : β} {e : ε}

lemma get_apply (s : σ) : (get : EStateM ε σ σ) s = .ok s s := rfl

variable (g : σ → σ)

lemma modify_apply (s : σ) : (modify g : EStateM ε σ PUnit) s = .ok ⟨⟩ (g s) := rfl

lemma bind_apply (x : EStateM ε σ α) (f : α → EStateM ε σ β) (s : σ) : (x >>= f) s = match x s with
      | .ok a s => f a s
      | .error e s => .error e s := rfl

lemma get_bind (f : σ → EStateM ε σ β) (s : σ) : (get >>= f) s = f s s := rfl

lemma modify_bind (f : PUnit → EStateM ε σ β) (s : σ) : (modify g >>= f) s = f ⟨⟩ (g s) := rfl

lemma bind_eq_ok : (x >>= f) s = .ok b s' ↔ ∃ a t, x s = .ok a t ∧ f a t = .ok b s' := by
  rw [bind_apply]
  cases x s with
  | ok a t => exact ⟨fun h => ⟨a, t, rfl, h⟩, fun ⟨_, _, ha, h⟩ => by cases ha; exact h⟩
  | error => exact ⟨nofun, nofun⟩

lemma bind_eq_error : (x >>= f) s = .error e s' ↔
    x s = .error e s' ∨ ∃ a t, x s = .ok a t ∧ f a t = .error e s' := by
  rw [bind_apply]
  cases x s with
  | ok a t =>
    refine ⟨fun h => .inr ⟨a, t, rfl, h⟩, ?_⟩
    rintro (h | ⟨_, _, ha, h⟩)
    · cases h
    · cases ha
      exact h
  | error =>
    refine ⟨fun h => .inl ?_, ?_⟩
    · cases h
      rfl
    · rintro (h | ⟨_, _, ha, -⟩)
      · cases h
        rfl
      · cases ha

/-- The errors of a program are of a kind. -/
def Fails (E : ε → Prop) (x : EStateM ε σ α) : Prop := ∀ s e t, x s = .error e t → E e

variable {E : ε → Prop}

lemma Fails.pure (a : α) : Fails E (pure a : EStateM ε σ α) := nofun

lemma Fails.throw (h : E e) : Fails E (throw e : EStateM ε σ α) := by
  rintro s _ _ ⟨⟩
  exact h

lemma Fails.get : Fails E (get : EStateM ε σ σ) := nofun

lemma Fails.modify : Fails E (modify g : EStateM ε σ PUnit) := nofun

lemma Fails.bind (hx : Fails E x) (hf : ∀ a, Fails E (f a)) : Fails E (x >>= f) := by
  intro s e t h
  rcases bind_eq_error.1 h with h | ⟨a, t', _, h⟩
  · exact hx s e t h
  · exact hf a t' e t h

end

end Diamond.Fallible
