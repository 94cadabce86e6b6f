/-!
# `Lib.Prog` — programs with a state and errors, and their triples

`Prog σ ε α` is a program over states `σ` that returns an `α` or fails with an `ε`; a failure keeps the state
reached so far. `Triple P m Q E` says that from a state in `P` a return of `m` lands in `Q` and a failure
in `E`; the rules below are one for each way to build a program. `Returning R m` is about the value alone.
-/

/-- A sequence that returns has returned at both steps. -/
theorem Except.exists_of_bind_ok {ε α β : Type} {x : Except ε α} {f : α → Except ε β} {b : β} (h : x >>= f = .ok b) :
    ∃ a, x = .ok a ∧ f a = .ok b := by
  cases x with
  | ok a => exact ⟨a, rfl, h⟩
  | error e => cases h

/-- A program over states `σ` that returns an `α` or fails with an `ε`. -/
def Prog (σ ε α : Type) := σ → Except ε α × σ

namespace Prog

variable {σ ε α β : Type}

instance : Monad (Prog σ ε) where
  pure a := fun s => (.ok a, s)
  bind m f := fun s =>
    match m s with
    | (.ok a, s') => f a s'
    | (.error e, s') => (.error e, s')

/-- Fail with `e`. -/
def fail (e : ε) : Prog σ ε α := fun s => (.error e, s)

/-- Return or fail as an `Except` does. -/
def ofExcept (r : Except ε α) : Prog σ ε α := fun s => (r, s)

/-- Observe the state. -/
def observe (f : σ → α) : Prog σ ε α := fun s => (.ok (f s), s)

/-- Change the state. -/
def change (f : σ → σ) : Prog σ ε Unit := fun s => (.ok (), f s)

/-- Run a program and return how it ended, also when it failed. -/
def attempt (m : Prog σ ε α) : Prog σ ε (Except ε α) := fun s => (.ok (m s).1, (m s).2)

/-- Run a program for what it does. -/
def discard (m : Prog σ ε α) : Prog σ ε Unit := m >>= fun _ => pure ()

/-- Run a program on a part of a larger state. -/
def onPart {τ : Type} (get : τ → σ) (set : σ → τ → τ) (m : Prog σ ε α) : Prog τ ε α :=
  fun t => ((m (get t)).1, set (m (get t)).2 t)

/-! ## Runs -/

/-- A program that returns is followed by the next. -/
theorem bind_ok {m : Prog σ ε α} {f : α → Prog σ ε β} {s s' : σ} {a : α} (h : m s = (.ok a, s')) :
    (m >>= f) s = f a s' := by
  show (match m s with
    | (.ok a, s') => f a s'
    | (.error e, s') => (.error e, s')) = f a s'
  rw [h]

/-- A program that fails ends the sequence. -/
theorem bind_error {m : Prog σ ε α} {f : α → Prog σ ε β} {s s' : σ} {e : ε} (h : m s = (.error e, s')) :
    (m >>= f) s = (.error e, s') := by
  show (match m s with
    | (.ok a, s') => f a s'
    | (.error e, s') => (.error e, s')) = (.error e, s')
  rw [h]

theorem bind_assoc {γ : Type} (m : Prog σ ε α) (f : α → Prog σ ε β) (g : β → Prog σ ε γ) :
    (m >>= f) >>= g = m >>= fun a => f a >>= g := by
  funext s
  rcases hrun : m s with ⟨r, s'⟩
  cases r with
  | ok a =>
      rw [bind_ok hrun]
      rcases hrun' : f a s' with ⟨r, s''⟩
      have hseq := (bind_ok hrun).trans hrun'
      cases r with
      | ok b => rw [bind_ok hseq, bind_ok hrun']
      | error e => rw [bind_error hseq, bind_error hrun']
  | error e => rw [bind_error hrun, bind_error (bind_error hrun)]

/-- What follows may be exchanged where it does the same after every return. -/
theorem bind_congr_of_run {m : Prog σ ε α} {f g : α → Prog σ ε β}
    (h : ∀ s a s', m s = (.ok a, s') → f a s' = g a s') : m >>= f = m >>= g := by
  funext s
  rcases hrun : m s with ⟨r, s'⟩
  cases r with
  | ok a => rw [bind_ok hrun, bind_ok hrun, h s a s' hrun]
  | error e => rw [bind_error hrun, bind_error hrun]

theorem ofExcept_ok (a : α) (s : σ) : (ofExcept (.ok a) : Prog σ ε α) s = (.ok a, s) := rfl

theorem ofExcept_error (e : ε) (s : σ) : (ofExcept (.error e) : Prog σ ε α) s = (.error e, s) := rfl

/-- What an `Except` decides, it decides before anything happens. -/
theorem ofExcept_bind (r : Except ε α) (f : α → Prog σ ε β) (s : σ) :
    (ofExcept r >>= f) s =
      match r with
      | .ok a => f a s
      | .error e => (.error e, s) := by
  cases r with
  | ok a => exact bind_ok (ofExcept_ok a s)
  | error e => exact bind_error (ofExcept_error e s)

theorem ofExcept_bind_ofExcept (r : Except ε α) (f : α → Except ε β) :
    (ofExcept r >>= fun a => (ofExcept (f a) : Prog σ ε β)) = ofExcept (r >>= f) := by
  funext s
  rw [ofExcept_bind]
  cases r with
  | ok a => rfl
  | error e => rfl

theorem attempt_of_run {m : Prog σ ε α} {s s' : σ} {r : Except ε α} (h : m s = (r, s')) :
    attempt m s = (.ok r, s') := by
  unfold attempt
  rw [h]

/-- What an attempt returns is how the program ended. -/
theorem run_of_attempt {m : Prog σ ε α} {s s' : σ} {r : Except ε α} (h : attempt m s = (.ok r, s')) : m s = (r, s') := by
  obtain ⟨hr, rfl⟩ := Prod.mk.inj h
  rw [← Except.ok.inj hr]

theorem discard_state (m : Prog σ ε α) (s : σ) : (discard m s).2 = (m s).2 := by
  rcases hm : m s with ⟨r, s'⟩
  unfold discard
  cases r with
  | ok a => rw [bind_ok hm]; rfl
  | error e => rw [bind_error hm]

/-! ## Programs that commute with a change of the state

Such a program neither reads what the change changes nor undoes it: it is a frame. -/

/-- The program does the same before the change as after it. -/
def Commutes (f : σ → σ) (m : Prog σ ε α) : Prop := ∀ s, m (f s) = ((m s).1, f (m s).2)

namespace Commutes

variable {f : σ → σ} {m : Prog σ ε α}

theorem pure (a : α) : Commutes f (Pure.pure a : Prog σ ε α) := fun _ => rfl

theorem fail (e : ε) : Commutes f (Prog.fail e : Prog σ ε α) := fun _ => rfl

theorem ofExcept (r : Except ε α) : Commutes f (Prog.ofExcept r) := fun _ => rfl

theorem observe {g : σ → α} (h : ∀ s, g (f s) = g s) : Commutes f (Prog.observe g : Prog σ ε α) := by
  intro s
  show ((.ok (g (f s)), f s) : Except ε α × σ) = (.ok (g s), f s)
  rw [h]

theorem change {g : σ → σ} (h : ∀ s, g (f s) = f (g s)) : Commutes f (Prog.change g : Prog σ ε Unit) := by
  intro s
  show ((.ok (), g (f s)) : Except ε Unit × σ) = (.ok (), f (g s))
  rw [h]

theorem bind {k : α → Prog σ ε β} (hm : Commutes f m) (hk : ∀ a, Commutes f (k a)) : Commutes f (m >>= k) := by
  intro s
  have h := hm s
  rcases hrun : m s with ⟨r, s'⟩
  rw [hrun] at h
  cases r with
  | ok a => rw [bind_ok h, bind_ok hrun, hk a s']
  | error e => rw [bind_error h, bind_error hrun]

theorem attempt (hm : Commutes f m) : Commutes f (Prog.attempt m : Prog σ ε (Except ε α)) := by
  intro s
  unfold Prog.attempt
  rw [hm s]

end Commutes

/-! ## Programs that write a log -/

/-- Whatever the program comes to, it adds something in `R` to the log. -/
def Emits {τ : Type} (log : σ → List τ) (R : List τ → Prop) (m : Prog σ ε α) : Prop :=
  ∀ s, ∃ t, log (m s).2 = log s ++ t ∧ R t

namespace Emits

variable {τ : Type} {log : σ → List τ} {R R' S : List τ → Prop} {m : Prog σ ε α}

theorem pure (a : α) (h : R []) : Emits log R (Pure.pure a : Prog σ ε α) :=
  fun s => ⟨[], (List.append_nil (log s)).symm, h⟩

theorem fail (e : ε) (h : R []) : Emits log R (Prog.fail e : Prog σ ε α) :=
  fun s => ⟨[], (List.append_nil (log s)).symm, h⟩

theorem ofExcept (r : Except ε α) (h : R []) : Emits log R (Prog.ofExcept r) :=
  fun s => ⟨[], (List.append_nil (log s)).symm, h⟩

theorem mono (hm : Emits log R m) (h : ∀ t, R t → R' t) : Emits log R' m := by
  intro s
  obtain ⟨t, heq, ht⟩ := hm s
  exact ⟨t, heq, h t ht⟩

/-- **Sequence rule**: the first program may be the last, if it fails. -/
theorem bind {k : α → Prog σ ε β} (hm : Emits log R m) (hk : ∀ a, Emits log R' (k a)) (hfail : ∀ t, R t → S t)
    (happend : ∀ t u, R t → R' u → S (t ++ u)) : Emits log S (m >>= k) := by
  intro s
  obtain ⟨t, heq, ht⟩ := hm s
  rcases hrun : m s with ⟨r, s'⟩
  rw [hrun] at heq
  cases r with
  | ok a =>
      obtain ⟨u, heq', hu⟩ := hk a s'
      refine ⟨t ++ u, ?_, happend t u ht hu⟩
      rw [bind_ok hrun, heq', heq, List.append_assoc]
  | error e =>
      refine ⟨t, ?_, hfail t ht⟩
      rw [bind_error hrun, heq]

/-- Steps that add nothing change nothing. -/
theorem ofExcept_bind {r : Except ε α} {k : α → Prog σ ε β} (hnil : R []) (hk : ∀ a, Emits log R (k a)) :
    Emits log R (Prog.ofExcept r >>= k) := by
  intro s
  rw [Prog.ofExcept_bind]
  cases r with
  | ok a => exact hk a s
  | error e => exact ⟨[], (List.append_nil (log s)).symm, hnil⟩

theorem attempt (hm : Emits log R m) : Emits log R (Prog.attempt m : Prog σ ε (Except ε α)) := hm

theorem discard (hm : Emits log R m) : Emits log R (Prog.discard m) := by
  intro s
  rw [discard_state]
  exact hm s

theorem and (hm : Emits log R m) (hm' : Emits log R' m) : Emits log (fun t => R t ∧ R' t) m := by
  intro s
  obtain ⟨t, heq, ht⟩ := hm s
  obtain ⟨t', heq', ht'⟩ := hm' s
  obtain rfl := List.append_cancel_left (heq.symm.trans heq')
  exact ⟨t, heq, ht, ht'⟩

/-- A program that adds to the front of the log what it would add to an empty one adds it anywhere. -/
theorem of_commutes {m : Prog σ ε α} (add : List τ → σ → σ) (clear : σ → σ) (hlog : ∀ t s, log (add t s) = t ++ log s)
    (hclear : ∀ s, log (clear s) = []) (hsplit : ∀ s, add (log s) (clear s) = s) (hm : ∀ t, Commutes (add t) m)
    (h : ∀ s, log s = [] → R (log (m s).2)) : Emits log R m := by
  intro s
  have hframe : (m s).2 = add (log s) (m (clear s)).2 := by
    have hcommutes := congrArg Prod.snd (hm (log s) (clear s))
    rwa [hsplit] at hcommutes
  refine ⟨log (m (clear s)).2, ?_, h (clear s) (hclear s)⟩
  rw [hframe, hlog]

end Emits

/-! ## Triples -/

/-- From `P`, a return of `m` lands in `Q` and a failure in `E`. -/
def Triple (P : σ → Prop) (m : Prog σ ε α) (Q : α → σ → Prop) (E : ε → σ → Prop) : Prop :=
  ∀ s, P s →
    match m s with
    | (.ok a, s') => Q a s'
    | (.error e, s') => E e s'

namespace Triple

variable {P P' : σ → Prop} {Q Q' : α → σ → Prop} {E E' : ε → σ → Prop} {m : Prog σ ε α}

/-- A program of which nothing is asked. -/
theorem trivial : Triple P m (fun _ _ => True) (fun _ _ => True) := by
  intro s _
  rcases m s with ⟨r, s'⟩
  cases r with
  | ok a => exact True.intro
  | error e => exact True.intro

theorem pure {a : α} (h : ∀ s, P s → Q a s) : Triple P (Pure.pure a) Q E := h

theorem fail {e : ε} (h : ∀ s, P s → E e s) : Triple P (Prog.fail e) Q E := h

theorem change {f : σ → σ} {Q : Unit → σ → Prop} (h : ∀ s, P s → Q () (f s)) :
    Triple P (Prog.change f) Q E := h

theorem ofExcept {r : Except ε α} (hok : ∀ a s, r = .ok a → P s → Q a s)
    (herr : ∀ e s, r = .error e → P s → E e s) : Triple P (Prog.ofExcept r) Q E := by
  intro s hs
  cases r with
  | ok a => exact hok a s rfl hs
  | error e => exact herr e s rfl hs

/-- **Sequence rule.** -/
theorem bind {R : β → σ → Prop} {f : α → Prog σ ε β} (hm : Triple P m Q E)
    (hf : ∀ a, Triple (Q a) (f a) R E) : Triple P (m >>= f) R E := by
  intro s hs
  have h := hm s hs
  show match (match m s with
    | (.ok a, s') => f a s'
    | (.error e, s') => (.error e, s')) with
    | (.ok b, s') => R b s'
    | (.error e, s') => E e s'
  rcases hms : m s with ⟨r, s'⟩
  rw [hms] at h
  cases r with
  | ok a => exact hf a s' h
  | error e => exact h

/-- **Consequence rule.** -/
theorem imp (h : Triple P m Q E) (hP : ∀ s, P' s → P s) (hQ : ∀ a s, Q a s → Q' a s)
    (hE : ∀ e s, E e s → E' e s) : Triple P' m Q' E' := by
  intro s hs
  have h := h s (hP s hs)
  rcases hms : m s with ⟨r, s'⟩
  rw [hms] at h
  cases r with
  | ok a => exact hQ a s' h
  | error e => exact hE e s' h

/-- Observing how a program ended never fails. -/
theorem attempt (h : Triple P m Q E) :
    Triple P (Prog.attempt m)
      (fun r s => match r with
        | .ok a => Q a s
        | .error e => E e s) E' := by
  intro s hs
  have h := h s hs
  show match (m s).1 with
    | .ok a => Q a (m s).2
    | .error e => E e (m s).2
  rcases hms : m s with ⟨r, s'⟩
  rw [hms] at h
  cases r with
  | ok a => exact h
  | error e => exact h

/-- A program on a part of the state: what is known of its outcome there, and of the rest. -/
theorem onPart {τ : Type} {get : τ → σ} {set : σ → τ → τ} {P : τ → Prop} {Q : α → τ → Prop}
    {E : ε → τ → Prop} (hok : ∀ t a s, P t → m (get t) = (.ok a, s) → Q a (set s t))
    (herr : ∀ t e s, P t → m (get t) = (.error e, s) → E e (set s t)) :
    Triple P (Prog.onPart get set m) Q E := by
  intro t ht
  rcases hm : m (get t) with ⟨r, s⟩
  unfold Prog.onPart
  rw [hm]
  cases r with
  | ok a => exact hok t a s ht hm
  | error e => exact herr t e s ht hm

/-- A hypothesis of the precondition that does not speak of the state may be used outside. -/
theorem of_pre {p : Prop} (h : p → Triple P m Q E) : Triple (fun s => P s ∧ p) m Q E :=
  fun s hs => h hs.2 s hs.1

/-- What holds after a return and after a failure holds of the last state. -/
theorem final {I : σ → Prop} (h : Triple P m (fun _ => I) (fun _ => I)) {s : σ} (hs : P s) :
    I (m s).2 := by
  have h := h s hs
  rcases hms : m s with ⟨r, s'⟩
  rw [hms] at h
  cases r with
  | ok a => exact h
  | error e => exact h

end Triple

/-! ## What a program may return -/

/-- Whatever the program returns is in `R`. -/
def Returning (R : α → Prop) (m : Prog σ ε α) : Prop := ∀ s a, (m s).1 = .ok a → R a

namespace Returning

variable {R : α → Prop} {m : Prog σ ε α}

theorem pure {a : α} (h : R a) : Returning R (Pure.pure a : Prog σ ε α) := by
  intro s a' heq
  obtain rfl : a = a' := Except.ok.inj heq
  exact h

theorem fail (e : ε) : Returning R (Prog.fail e : Prog σ ε α) := by
  intro s a heq
  cases heq

/-- Only the last program counts. -/
theorem bind {n : Prog σ ε β} {k : β → Prog σ ε α} (hk : ∀ b, Returning R (k b)) : Returning R (n >>= k) := by
  intro s a heq
  rcases hrun : n s with ⟨r, s'⟩
  cases r with
  | ok b =>
      rw [bind_ok hrun] at heq
      exact hk b s' a heq
  | error e =>
      rw [bind_error hrun] at heq
      cases heq

end Returning
end Prog
