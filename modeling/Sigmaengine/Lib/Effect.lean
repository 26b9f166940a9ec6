import Mathlib.Order.Defs.Unbundled
import Mathlib.Logic.Relation

/-!
# Programs that fail and keep what they did

A `Prog ε σ α` runs in a state `σ` and either returns or throws; a throw does *not* roll the state
back.  Rolling back is a separate combinator (`atomically`), so a program that swallows an exception
(`attempt`) keeps the partial changes made before it.

Two judgements carry the reasoning.  `Runs R m` speaks of normal returns only, `Always R m` of every
outcome; both compose along `>>=` when `R` is transitive, so a program that only uses steps inside
`R` is inside `R` as a whole.
-/

namespace Effect

/-- Programs over a state `σ` that may throw an `ε`; the state at the throw is kept. -/
abbrev Prog (ε σ α : Type) := EStateM ε σ α

variable {ε σ α β : Type}

/-- The state a run ends in, whatever the outcome. -/
def after : EStateM.Result ε σ α → σ
  | .ok _ s => s
  | .error _ s => s

@[simp] theorem after_ok (a : α) (s : σ) : after (.ok a s : EStateM.Result ε σ α) = s := rfl

@[simp] theorem after_error (e : ε) (s : σ) : after (.error e s : EStateM.Result ε σ α) = s := rfl

/-- The run returned normally. -/
def succeeds : EStateM.Result ε σ α → Bool
  | .ok _ _ => true
  | .error _ _ => false

/-- The exception a run ended with. -/
def thrown : EStateM.Result ε σ α → Option ε
  | .ok _ _ => none
  | .error e _ => some e

theorem eq_ok_of_succeeds {r : EStateM.Result ε σ Unit} (h : succeeds r = true) : r = .ok () (after r) := by
  cases r with
  | ok a s => rfl
  | error e s => cases h

/-- Throw `e` unless `c` holds. -/
def assert (c : Bool) (e : ε) : Prog ε σ Unit :=
  if c then pure () else throw e

/-- The value of an optional, or throw `e`. -/
def ofOption (o : Option α) (e : ε) : Prog ε σ α :=
  match o with
  | some a => pure a
  | none => throw e

/-- The value of a fallible pure computation. -/
def checked (x : Except ε α) : Prog ε σ α :=
  match x with
  | .ok a => pure a
  | .error e => throw e

/-- Run `m`; when it throws, put back the state `m` started in and throw on. -/
def atomically (m : Prog ε σ α) : Prog ε σ α := fun s =>
  match m s with
  | .ok a s' => .ok a s'
  | .error e _ => .error e s

/-- Run `m` and swallow its exception, keeping the state it reached. -/
def attempt (m : Prog ε σ Unit) : Prog ε σ Unit := fun s =>
  match m s with
  | .ok _ s' => .ok () s'
  | .error _ s' => .ok () s'

/-- Run `f` on the elements in order. -/
def each (f : α → Prog ε σ Unit) : List α → Prog ε σ Unit
  | [] => pure ()
  | a :: as => do
    f a
    each f as

/-- `while( … )`: repeat `body` until it answers `false`, for at most `fuel` rounds. -/
def loop (diverged : ε) (body : Prog ε σ Bool) : Nat → Prog ε σ Unit
  | 0 => throw diverged
  | fuel + 1 => do
    let again ← body
    if again then loop diverged body fuel else pure ()

/-- Follow an iterator: `body` answers where it goes on, for at most `fuel` rounds. -/
def follow {ι : Type} (diverged : ε) (body : ι → Prog ε σ (Option ι)) : Nat → Option ι → Prog ε σ Unit
  | _, none => pure ()
  | 0, some _ => throw diverged
  | fuel + 1, some i => do
    let next ← body i
    follow diverged body fuel next

/-- A part of a state that can be read and replaced on its own. -/
structure Part (σ τ : Type) where
  get : σ → τ
  set : τ → σ → σ
  get_set : ∀ t s, get (set t s) = t
  set_get : ∀ s, set (get s) s = s

attribute [simp] Part.get_set Part.set_get

/-- Run a program of the part `l` on the whole state: everything outside the part stays. -/
def within {τ : Type} (l : Part σ τ) (m : Prog ε τ α) : Prog ε σ α := fun s =>
  match m (l.get s) with
  | .ok a t => .ok a (l.set t s)
  | .error e t => .error e (l.set t s)

/-! ## Inverting a normal return -/

theorem bind_eq_ok {x : Prog ε σ α} {f : α → Prog ε σ β} {s s' : σ} {b : β} :
    (x >>= f) s = .ok b s' ↔ ∃ a t, x s = .ok a t ∧ f a t = .ok b s' := by
  change EStateM.bind x f s = _ ↔ _
  unfold EStateM.bind
  cases x s with
  | ok a t =>
    refine ⟨fun h => ⟨a, t, rfl, h⟩, ?_⟩
    rintro ⟨a', t', hx, hf⟩
    cases hx
    exact hf
  | error e t => simp

theorem bind_of_ok {x : Prog ε σ α} {f : α → Prog ε σ β} {s t : σ} {a : α}
    (h : x s = .ok a t) : (x >>= f) s = f a t := by
  change EStateM.bind x f s = _
  unfold EStateM.bind
  rw [h]

theorem bind_of_error {x : Prog ε σ α} {f : α → Prog ε σ β} {s t : σ} {e : ε}
    (h : x s = .error e t) : (x >>= f) s = .error e t := by
  change EStateM.bind x f s = _
  unfold EStateM.bind
  rw [h]

/-- Two programs that go on alike after what the first step returns. -/
theorem bind_congr_ok {x : Prog ε σ α} {f g : α → Prog ε σ β} {s : σ}
    (h : ∀ a t, x s = .ok a t → f a t = g a t) : (x >>= f) s = (x >>= g) s := by
  cases hx : x s with
  | ok a t => rw [bind_of_ok hx, bind_of_ok hx, h a t hx]
  | error e t => rw [bind_of_error hx, bind_of_error hx]

theorem bind_congr_left {x y : Prog ε σ α} {f : α → Prog ε σ β} {s : σ} (h : x s = y s) :
    (x >>= f) s = (y >>= f) s := by
  change EStateM.bind x f s = EStateM.bind y f s
  unfold EStateM.bind
  rw [h]

theorem pure_apply (a : α) (s : σ) : (pure a : Prog ε σ α) s = .ok a s := rfl

theorem throw_apply (e : ε) (s : σ) : (throw e : Prog ε σ α) s = .error e s := rfl

theorem get_apply (s : σ) : (get : Prog ε σ σ) s = .ok s s := rfl

theorem modify_apply (f : σ → σ) (s : σ) : (modify f : Prog ε σ Unit) s = .ok () (f s) := rfl

theorem pure_eq_ok {a b : α} {s s' : σ} :
    (pure a : Prog ε σ α) s = .ok b s' ↔ a = b ∧ s = s' := by
  simp [pure_apply]

theorem throw_eq_ok {e : ε} {b : α} {s s' : σ} :
    (throw e : Prog ε σ α) s = .ok b s' ↔ False := by
  simp [throw_apply]

theorem get_eq_ok {s s' t : σ} : (get : Prog ε σ σ) s = .ok t s' ↔ s = t ∧ s = s' := by
  simp [get_apply]

theorem modify_eq_ok {f : σ → σ} {s s' : σ} {u : Unit} :
    (modify f : Prog ε σ Unit) s = .ok u s' ↔ f s = s' := by
  simp [modify_apply]

theorem assert_eq_ok {c : Bool} {e : ε} {s s' : σ} {u : Unit} :
    (assert c e : Prog ε σ Unit) s = .ok u s' ↔ c = true ∧ s = s' := by
  unfold assert
  cases c <;> simp [pure_apply, throw_apply]

theorem ofOption_eq_ok {o : Option α} {e : ε} {a : α} {s s' : σ} :
    (ofOption o e : Prog ε σ α) s = .ok a s' ↔ o = some a ∧ s = s' := by
  cases o <;> simp [ofOption, pure_apply, throw_apply]

theorem checked_eq_ok {x : Except ε α} {a : α} {s s' : σ} :
    (checked x : Prog ε σ α) s = .ok a s' ↔ x = .ok a ∧ s = s' := by
  cases x <;> simp [checked, pure_apply, throw_apply]

theorem map_eq_ok {x : Except ε α} {f : α → β} {b : β} (h : x.map f = .ok b) : ∃ a, x = .ok a ∧ f a = b := by
  cases x with
  | error e => cases h
  | ok a => exact ⟨a, rfl, by cases h; rfl⟩

theorem each_checked_eq_ok {f : α → Except ε Unit} {as : List α} {s s' : σ} {u : Unit} :
    each (fun a => checked (f a)) as s = .ok u s' ↔ (∀ a ∈ as, f a = .ok ()) ∧ s = s' := by
  induction as with
  | nil => simp [each, pure_apply]
  | cons a as ih =>
    simp only [each, bind_eq_ok, checked_eq_ok, List.forall_mem_cons]
    constructor
    · rintro ⟨_, _, ⟨ha, rfl⟩, h⟩
      obtain ⟨has, rfl⟩ := ih.mp h
      exact ⟨⟨ha, has⟩, rfl⟩
    · rintro ⟨⟨ha, has⟩, rfl⟩
      exact ⟨(), s, ⟨ha, rfl⟩, ih.mpr ⟨has, rfl⟩⟩

theorem atomically_eq_ok {m : Prog ε σ α} {s s' : σ} {a : α} :
    atomically m s = .ok a s' ↔ m s = .ok a s' := by
  unfold atomically
  cases m s <;> simp

theorem attempt_eq_ok {m : Prog ε σ Unit} {s s' : σ} {u : Unit} :
    attempt m s = .ok u s' ↔ after (m s) = s' := by
  unfold attempt
  cases m s <;> simp

theorem after_attempt (m : Prog ε σ Unit) (s : σ) : after (attempt m s) = after (m s) := by
  unfold attempt
  cases m s <;> rfl

theorem within_eq_ok {τ : Type} {l : Part σ τ} {m : Prog ε τ α} {s s' : σ} {a : α} :
    within l m s = .ok a s' ↔ ∃ t, m (l.get s) = .ok a t ∧ l.set t s = s' := by
  unfold within
  cases m (l.get s) with
  | ok b t =>
    simp only [EStateM.Result.ok.injEq]
    refine ⟨fun h => ⟨t, ⟨h.1, rfl⟩, h.2⟩, ?_⟩
    rintro ⟨t', ⟨hb, rfl⟩, hs⟩
    exact ⟨hb, hs⟩
  | error e t => simp

theorem after_within {τ : Type} (l : Part σ τ) (m : Prog ε τ α) (s : σ) :
    after (within l m s) = l.set (after (m (l.get s))) s := by
  unfold within
  cases m (l.get s) <;> rfl

/-! ## Reasoning about normal returns -/

/-- Every normal return of `m` relates its start to its end by `R`. -/
def Runs (R : σ → σ → Prop) (m : Prog ε σ α) : Prop :=
  ∀ s a s', m s = .ok a s' → R s s'

/-- Every outcome of `m`, exceptional or not, relates its start to its end by `R`. -/
def Always (R : σ → σ → Prop) (m : Prog ε σ α) : Prop :=
  ∀ s, R s (after (m s))

/-- Running `m` never changes the state. -/
def ReadOnly (m : Prog ε σ α) : Prop := Always Eq m

variable {R : σ → σ → Prop}

theorem Always.runs {m : Prog ε σ α} (h : Always R m) : Runs R m := by
  intro s a s' hm
  have := h s
  rwa [hm, after_ok] at this

theorem ReadOnly.eq_of_ok {m : Prog ε σ α} (h : ReadOnly m) {s s' : σ} {a : α}
    (hm : m s = .ok a s') : s = s' :=
  Always.runs h s a s' hm

theorem ReadOnly.always [Std.Refl R] {m : Prog ε σ α} (h : ReadOnly m) : Always R m := by
  intro s
  rw [← h s]
  exact Std.Refl.refl s

theorem runs_pure [Std.Refl R] (a : α) : Runs R (pure a : Prog ε σ α) := by
  intro s b s' h
  obtain ⟨-, rfl⟩ := pure_eq_ok.mp h
  exact Std.Refl.refl s

theorem runs_throw (e : ε) : Runs R (throw e : Prog ε σ α) := by
  intro s b s' h
  exact (throw_eq_ok.mp h).elim

theorem runs_bind [IsTrans σ R] {x : Prog ε σ α} {f : α → Prog ε σ β} (hx : Runs R x)
    (hf : ∀ a, Runs R (f a)) : Runs R (x >>= f) := by
  intro s b s' h
  obtain ⟨a, t, hxa, hfa⟩ := bind_eq_ok.mp h
  exact IsTrans.trans _ _ _ (hx s a t hxa) (hf a t b s' hfa)

theorem runs_each_of_mem [Std.Refl R] [IsTrans σ R] {f : α → Prog ε σ Unit} {as : List α}
    (hf : ∀ a ∈ as, Runs R (f a)) : Runs R (each f as) := by
  induction as with
  | nil => exact runs_pure ()
  | cons a as ih =>
    refine runs_bind (hf a List.mem_cons_self) fun _ => ih fun b hb => ?_
    exact hf b (List.mem_cons_of_mem a hb)

theorem runs_each [Std.Refl R] [IsTrans σ R] {f : α → Prog ε σ Unit} (hf : ∀ a, Runs R (f a)) (as : List α) :
    Runs R (each f as) :=
  runs_each_of_mem fun a _ => hf a

theorem runs_loop [Std.Refl R] [IsTrans σ R] {d : ε} {body : Prog ε σ Bool} (hb : Runs R body)
    (fuel : Nat) : Runs R (loop d body fuel) := by
  induction fuel with
  | zero => exact runs_throw d
  | succ n ih =>
    refine runs_bind hb fun again => ?_
    cases again with
    | false => exact runs_pure ()
    | true => exact ih

theorem runs_follow [Std.Refl R] [IsTrans σ R] {ι : Type} {d : ε} {body : ι → Prog ε σ (Option ι)}
    (hb : ∀ i, Runs R (body i)) (fuel : Nat) (cursor : Option ι) : Runs R (follow d body fuel cursor) := by
  induction fuel generalizing cursor with
  | zero =>
    cases cursor with
    | none => exact runs_pure ()
    | some i => exact runs_throw d
  | succ n ih =>
    cases cursor with
    | none => exact runs_pure ()
    | some i => exact runs_bind (hb i) fun next => ih next

theorem always_pure [Std.Refl R] (a : α) : Always R (pure a : Prog ε σ α) := fun s => Std.Refl.refl s

theorem always_throw [Std.Refl R] (e : ε) : Always R (throw e : Prog ε σ α) := fun s => Std.Refl.refl s

theorem always_bind [IsTrans σ R] {x : Prog ε σ α} {f : α → Prog ε σ β}
    (hx : Always R x) (hf : ∀ a, Always R (f a)) : Always R (x >>= f) := by
  intro s
  have h := hx s
  cases hxs : x s with
  | ok a t =>
    rw [hxs, after_ok] at h
    rw [bind_of_ok hxs]
    exact IsTrans.trans _ _ _ h (hf a t)
  | error e t =>
    rw [hxs, after_error] at h
    rw [bind_of_error hxs]
    exact h

theorem always_each_of_mem [Std.Refl R] [IsTrans σ R] {f : α → Prog ε σ Unit} {as : List α}
    (hf : ∀ a ∈ as, Always R (f a)) : Always R (each f as) := by
  induction as with
  | nil => exact always_pure ()
  | cons a as ih =>
    refine always_bind (hf a List.mem_cons_self) fun _ => ih fun b hb => ?_
    exact hf b (List.mem_cons_of_mem a hb)

theorem always_each [Std.Refl R] [IsTrans σ R] {f : α → Prog ε σ Unit} (hf : ∀ a, Always R (f a)) (as : List α) :
    Always R (each f as) :=
  always_each_of_mem fun a _ => hf a

theorem always_attempt {m : Prog ε σ Unit} (h : Always R m) : Always R (attempt m) := by
  intro s
  have := h s
  unfold attempt
  cases hm : m s <;> rw [hm] at this <;> exact this

theorem always_atomically [Std.Refl R] {m : Prog ε σ α} (h : Runs R m) : Always R (atomically m) := by
  intro s
  unfold atomically
  cases hm : m s with
  | ok a t => exact h s a t hm
  | error e t => exact Std.Refl.refl s

/-- A program of one part is inside every relation that ignores that part. -/
theorem always_within {τ : Type} {l : Part σ τ} (h : ∀ t s, R s (l.set t s)) (m : Prog ε τ α) :
    Always R (within l m) := by
  intro s
  rw [after_within]
  exact h _ s

theorem Always.mono {S : σ → σ → Prop} {m : Prog ε σ α} (h : Always R m) (hRS : ∀ s s', R s s' → S s s') :
    Always S m :=
  fun s => hRS _ _ (h s)

theorem readOnly_within {τ : Type} {l : Part σ τ} {m : Prog ε τ α} (h : ReadOnly m) :
    ReadOnly (within l m) := by
  intro s
  rw [after_within, ← h (l.get s), l.set_get]

theorem runs_attempt {m : Prog ε σ Unit} (h : Always R m) : Runs R (attempt m) := by
  intro s a s' hm
  rw [← attempt_eq_ok.mp hm]
  exact h s

theorem always_loop [Std.Refl R] [IsTrans σ R] {d : ε} {body : Prog ε σ Bool} (hb : Always R body)
    (fuel : Nat) : Always R (loop d body fuel) := by
  induction fuel with
  | zero => exact always_throw d
  | succ n ih =>
    refine always_bind hb fun again => ?_
    cases again with
    | false => exact always_pure ()
    | true => exact ih

theorem always_follow [Std.Refl R] [IsTrans σ R] {ι : Type} {d : ε} {body : ι → Prog ε σ (Option ι)}
    (hb : ∀ i, Always R (body i)) (fuel : Nat) (cursor : Option ι) : Always R (follow d body fuel cursor) := by
  induction fuel generalizing cursor with
  | zero =>
    cases cursor with
    | none => exact always_pure ()
    | some i => exact always_throw d
  | succ n ih =>
    cases cursor with
    | none => exact always_pure ()
    | some i => exact always_bind (hb i) fun next => ih next

/-- The end has the property `I` when the start has it. -/
def Kept (I : σ → Prop) (s s' : σ) : Prop := I s → I s'

instance (I : σ → Prop) : Std.Refl (Kept I) := ⟨fun _ h => h⟩

instance (I : σ → Prop) : IsTrans σ (Kept I) := ⟨fun _ _ _ h h' hs => h' (h hs)⟩

/-! ## Programs that throw before they change anything -/

/-- When `m` throws, the state is still the one it started in. -/
def Clean (m : Prog ε σ α) : Prop := ∀ s e s', m s = .error e s' → s' = s

theorem ReadOnly.clean {m : Prog ε σ α} (h : ReadOnly m) : Clean m := by
  intro s e s' hm
  have hs := h s
  rw [hm] at hs
  exact hs.symm

/-- What holds of every normal return of a clean program holds of every outcome. -/
theorem always_of_clean [Std.Refl R] {m : Prog ε σ α} (h : Runs R m) (hclean : Clean m) : Always R m := by
  intro s
  cases hm : m s with
  | ok a s' => exact h s a s' hm
  | error e s' =>
    rw [after_error, hclean s e s' hm]
    exact Std.Refl.refl s

theorem clean_bind {x : Prog ε σ α} {f : α → Prog ε σ β} (hx : ReadOnly x) (hf : ∀ a, Clean (f a)) :
    Clean (x >>= f) := by
  intro s e s' hm
  cases hxs : x s with
  | ok a t =>
    rw [bind_of_ok hxs] at hm
    obtain rfl := hx.eq_of_ok hxs
    exact hf a s e s' hm
  | error e' t =>
    rw [bind_of_error hxs] at hm
    cases hm
    exact hx.clean s e s' hxs

theorem clean_bind_modify {x : Prog ε σ α} (hx : Clean x) (f : α → σ → σ) :
    Clean (x >>= fun a => modify (f a)) := by
  intro s e s' hm
  cases hxs : x s with
  | ok a t =>
    rw [bind_of_ok hxs] at hm
    cases hm
  | error e' t =>
    rw [bind_of_error hxs] at hm
    cases hm
    exact hx s e s' hxs

/-- **Loops**: a body that always returns, keeps `I` and lowers `μ` whenever it asks for another
round makes a loop that returns, given more fuel than `μ`. -/
theorem loop_returns {I : σ → Prop} {μ : σ → Nat} {d : ε} {body : Prog ε σ Bool}
    (hbody : ∀ s, I s → ∃ again s', body s = .ok again s' ∧ I s' ∧ (again = true → μ s' < μ s))
    (fuel : Nat) (s : σ) (hI : I s) (hfuel : μ s < fuel) : ∃ s', loop d body fuel s = .ok () s' ∧ I s' := by
  induction fuel generalizing s with
  | zero => exact absurd hfuel (Nat.not_lt_zero _)
  | succ n ih =>
    obtain ⟨again, t, hrun, ht, hlower⟩ := hbody s hI
    unfold loop
    rw [bind_of_ok hrun]
    cases again with
    | false => exact ⟨t, rfl, ht⟩
    | true => exact ih t ht (by have := hlower rfl; omega)

/-- An iterator that stays valid, with a measure that every round lowers, comes to its end. -/
theorem follow_returns {ι : Type} {I : σ → Prop} {At : σ → ι → Prop} {μ : σ → Nat} {d : ε}
    {body : ι → Prog ε σ (Option ι)}
    (hbody : ∀ s i, I s → At s i → ∃ next s', body i s = .ok next s' ∧ I s' ∧
      ∀ j, next = some j → At s' j ∧ μ s' < μ s)
    (fuel : Nat) (cursor : Option ι) (s : σ) (hI : I s) (hat : ∀ i, cursor = some i → At s i) (hfuel : μ s < fuel) :
    ∃ s', follow d body fuel cursor s = .ok () s' ∧ I s' := by
  induction fuel generalizing cursor s with
  | zero => exact absurd hfuel (Nat.not_lt_zero _)
  | succ n ih =>
    cases cursor with
    | none => exact ⟨s, rfl, hI⟩
    | some i =>
      obtain ⟨next, t, hrun, ht, hnext⟩ := hbody s i hI (hat i rfl)
      unfold follow
      rw [bind_of_ok hrun]
      cases next with
      | none =>
        refine ⟨t, ?_, ht⟩
        cases n <;> rfl
      | some j => exact ih (some j) t ht (fun k hk => (hnext k hk).1) (by have := (hnext j rfl).2; omega)

/-- A loop that returns left through a round that asked for no other. -/
theorem loop_exits [Std.Refl R] [IsTrans σ R] {d : ε} {body : Prog ε σ Bool}
    (hbody : ∀ s s', body s = .ok true s' → R s s') {fuel : Nat} {s s' : σ} {u : Unit}
    (h : loop d body fuel s = .ok u s') : ∃ t, R s t ∧ body t = .ok false s' := by
  induction fuel generalizing s with
  | zero => exact (throw_eq_ok.mp h).elim
  | succ n ih =>
    obtain ⟨again, t, hrun, hrest⟩ := bind_eq_ok.mp h
    cases again with
    | false =>
      obtain ⟨-, rfl⟩ := pure_eq_ok.mp hrest
      exact ⟨s, Std.Refl.refl s, hrun⟩
    | true =>
      obtain ⟨t', hRt, hexit⟩ := ih hrest
      exact ⟨t', IsTrans.trans _ _ _ (hbody _ _ hrun) hRt, hexit⟩

/-! ## Programs with one more guard -/

/-- `m` returns exactly when `m'` does and `c` holds, with the same result. -/
def Restricts (c : Prop) (m m' : Prog ε σ α) : Prop :=
  ∀ s a s', m s = .ok a s' ↔ m' s = .ok a s' ∧ c

theorem restricts_self {c : Prop} (hc : c) (m : Prog ε σ α) : Restricts c m m := by
  intro s a s'
  rw [and_iff_left hc]

theorem restricts_bind {c d : Prop} {x x' : Prog ε σ α} {f f' : α → Prog ε σ β} (hx : Restricts c x x')
    (hf : ∀ a, Restricts d (f a) (f' a)) : Restricts (c ∧ d) (x >>= f) (x' >>= f') := by
  intro s b s'
  rw [bind_eq_ok, bind_eq_ok]
  constructor
  · rintro ⟨a, t, hxs, hfs⟩
    obtain ⟨hxs', hc⟩ := (hx s a t).mp hxs
    obtain ⟨hfs', hd⟩ := (hf a t b s').mp hfs
    exact ⟨⟨a, t, hxs', hfs'⟩, hc, hd⟩
  · rintro ⟨⟨a, t, hxs, hfs⟩, hc, hd⟩
    exact ⟨a, t, (hx s a t).mpr ⟨hxs, hc⟩, (hf a t b s').mpr ⟨hfs, hd⟩⟩

theorem restricts_bind_right {c : Prop} {x : Prog ε σ α} {f f' : α → Prog ε σ β}
    (hf : ∀ a, Restricts c (f a) (f' a)) : Restricts c (x >>= f) (x >>= f') := by
  have h := restricts_bind (restricts_self trivial x) hf
  rwa [true_and] at h

theorem restricts_bind_left {c : Prop} {x x' : Prog ε σ α} {f : α → Prog ε σ β} (hx : Restricts c x x') :
    Restricts c (x >>= f) (x' >>= f) := by
  have h := restricts_bind hx fun a => restricts_self trivial (f a)
  rwa [and_true] at h

theorem restricts_each {c : α → Prop} {f f' : α → Prog ε σ Unit} (h : ∀ a, Restricts (c a) (f a) (f' a))
    (as : List α) : Restricts (∀ a ∈ as, c a) (each f as) (each f' as) := by
  induction as with
  | nil => exact restricts_self (by simp) _
  | cons a as ih =>
    rw [List.forall_mem_cons]
    exact restricts_bind (h a) fun _ => ih

theorem restricts_within {τ : Type} {c : Prop} {l : Part σ τ} {m m' : Prog ε τ α} (h : Restricts c m m') :
    Restricts c (within l m) (within l m') := by
  intro s a s'
  rw [within_eq_ok, within_eq_ok]
  constructor
  · rintro ⟨t, hm, rfl⟩
    obtain ⟨hm', hc⟩ := (h _ _ _).mp hm
    exact ⟨⟨t, hm', rfl⟩, hc⟩
  · rintro ⟨⟨t, hm, rfl⟩, hc⟩
    exact ⟨t, (h _ _ _).mpr ⟨hm, hc⟩, rfl⟩

/-! ## Programs that end alike -/

/-- Where both programs succeed, they end alike. -/
def Agree (m m' : Prog ε σ α) : Prop :=
  ∀ s a t a' t', m s = .ok a t → m' s = .ok a' t' → a = a' ∧ t = t'

theorem agree_self (m : Prog ε σ α) : Agree m m := by
  intro s a t a' t' h h'
  rw [h] at h'
  cases h'
  exact ⟨rfl, rfl⟩

theorem agree_bind {x x' : Prog ε σ α} {f f' : α → Prog ε σ β} (hx : Agree x x')
    (hf : ∀ a, Agree (f a) (f' a)) : Agree (x >>= f) (x' >>= f') := by
  intro s b t b' t' h h'
  obtain ⟨a, s₁, hrun, h⟩ := bind_eq_ok.mp h
  obtain ⟨a', s₂, hrun', h'⟩ := bind_eq_ok.mp h'
  obtain ⟨rfl, rfl⟩ := hx _ _ _ _ _ hrun hrun'
  exact hf a _ _ _ _ _ h h'

theorem agree_each {f f' : α → Prog ε σ Unit} (hf : ∀ a, Agree (f a) (f' a)) (as : List α) :
    Agree (each f as) (each f' as) := by
  induction as with
  | nil => exact agree_self _
  | cons a as ih => exact agree_bind (hf a) fun _ => ih

theorem agree_within {τ : Type} {l : Part σ τ} {m m' : Prog ε τ α} (h : Agree m m') :
    Agree (within l m) (within l m') := by
  intro s a t a' t' hrun hrun'
  obtain ⟨c, hc, rfl⟩ := within_eq_ok.mp hrun
  obtain ⟨c', hc', rfl⟩ := within_eq_ok.mp hrun'
  obtain ⟨rfl, rfl⟩ := h _ _ _ _ _ hc hc'
  exact ⟨rfl, rfl⟩

/-- Checks leave the state alone, whatever they ask. -/
theorem agree_readOnly {m m' : Prog ε σ Unit} (h : ReadOnly m) (h' : ReadOnly m') : Agree m m' := by
  intro s a t a' t' hrun hrun'
  exact ⟨rfl, (h.eq_of_ok hrun).symm.trans (h'.eq_of_ok hrun')⟩

/-! ## Programs that read only -/

theorem readOnly_pure (a : α) : ReadOnly (pure a : Prog ε σ α) := fun _ => rfl

theorem readOnly_get : ReadOnly (get : Prog ε σ σ) := fun _ => rfl

theorem readOnly_assert (c : Bool) (e : ε) : ReadOnly (assert c e : Prog ε σ Unit) := by
  intro s
  unfold assert
  cases c <;> rfl

theorem readOnly_ofOption (o : Option α) (e : ε) : ReadOnly (ofOption o e : Prog ε σ α) := by
  intro s
  cases o <;> rfl

theorem readOnly_checked (x : Except ε α) : ReadOnly (checked x : Prog ε σ α) := by
  intro s
  cases x <;> rfl

theorem always_get [Std.Refl R] : Always R (get : Prog ε σ σ) := readOnly_get.always

theorem always_assert [Std.Refl R] (c : Bool) (e : ε) : Always R (assert c e : Prog ε σ Unit) :=
  (readOnly_assert c e).always

theorem always_ofOption [Std.Refl R] (o : Option α) (e : ε) : Always R (ofOption o e : Prog ε σ α) :=
  (readOnly_ofOption o e).always

theorem always_checked [Std.Refl R] (x : Except ε α) : Always R (checked x : Prog ε σ α) :=
  (readOnly_checked x).always

theorem ReadOnly.bind {x : Prog ε σ α} {f : α → Prog ε σ β} (hx : ReadOnly x)
    (hf : ∀ a, ReadOnly (f a)) : ReadOnly (x >>= f) :=
  always_bind hx hf

theorem readOnly_each {f : α → Prog ε σ Unit} (hf : ∀ a, ReadOnly (f a)) (as : List α) :
    ReadOnly (each f as) :=
  always_each hf as

/-! ## Exceptions that are never thrown -/

/-- `m` never throws `e`. -/
def Avoids (e : ε) (m : Prog ε σ α) : Prop := ∀ s s', m s ≠ .error e s'

section Avoids

variable {e : ε}

theorem avoids_pure (a : α) : Avoids e (pure a : Prog ε σ α) := fun s s' h => by cases h

theorem avoids_throw {x : ε} (hx : x ≠ e) : Avoids e (throw x : Prog ε σ α) := fun s s' h => by
  cases h
  exact hx rfl

theorem avoids_get : Avoids e (get : Prog ε σ σ) := fun s s' h => by cases h

theorem avoids_modify (f : σ → σ) : Avoids e (modify f : Prog ε σ Unit) := fun s s' h => by cases h

theorem avoids_assert {x : ε} (hx : x ≠ e) (c : Bool) : Avoids e (assert c x : Prog ε σ Unit) := by
  unfold assert
  split
  · exact avoids_pure ()
  · exact avoids_throw hx

theorem avoids_bind {x : Prog ε σ α} {f : α → Prog ε σ β} (hx : Avoids e x) (hf : ∀ a, Avoids e (f a)) :
    Avoids e (x >>= f) := by
  intro s s' h
  cases hxs : x s with
  | ok a t =>
    rw [bind_of_ok hxs] at h
    exact hf a t s' h
  | error x t =>
    rw [bind_of_error hxs] at h
    cases h
    exact hx s _ hxs

theorem avoids_each_of_mem {f : α → Prog ε σ Unit} {as : List α} (hf : ∀ a ∈ as, Avoids e (f a)) :
    Avoids e (each f as) := by
  induction as with
  | nil => exact avoids_pure ()
  | cons a as ih =>
    rw [List.forall_mem_cons] at hf
    exact avoids_bind hf.1 fun _ => ih hf.2

theorem avoids_checked {x : Except ε α} (hx : x ≠ .error e) : Avoids e (checked x : Prog ε σ α) := by
  cases x with
  | ok a => exact avoids_pure a
  | error y => exact avoids_throw fun h => hx (congrArg Except.error h)

theorem map_ne_error {x : Except ε α} (f : α → β) (h : x ≠ .error e) : x.map f ≠ .error e := by
  cases x with
  | ok a =>
    intro hx
    cases hx
  | error y =>
    intro hx
    cases hx
    exact h rfl

theorem avoids_within {τ : Type} {l : Part σ τ} {m : Prog ε τ α} (h : Avoids e m) : Avoids e (within l m) := by
  intro s s' hs
  unfold within at hs
  split at hs
  · cases hs
  next hrun =>
    cases hs
    exact h _ _ hrun

/-- An iterator whose every round lowers a measure comes to its end before the fuel does. -/
theorem avoids_follow {ι : Type} {μ : σ → Nat} {body : ι → Prog ε σ (Option ι)} (hbody : ∀ i, Avoids e (body i))
    (hlower : ∀ s i j s', body i s = .ok (some j) s' → μ s' < μ s) {fuel : Nat} {cursor : Option ι} {s s' : σ}
    (hfuel : μ s < fuel) : follow e body fuel cursor s ≠ .error e s' := by
  induction fuel generalizing cursor s with
  | zero => exact absurd hfuel (Nat.not_lt_zero _)
  | succ n ih =>
    cases cursor with
    | none => exact avoids_pure () s s'
    | some i =>
      unfold follow
      cases hrun : body i s with
      | error x t =>
        rw [bind_of_error hrun]
        rintro ⟨⟩
        exact hbody i s _ hrun
      | ok next t =>
        rw [bind_of_ok hrun]
        cases next with
        | none =>
          cases n with
          | zero => exact avoids_pure () t s'
          | succ n => exact avoids_pure () t s'
        | some j =>
          have hless := hlower s i j t hrun
          exact ih (by omega)

end Avoids

end Effect
