import Sigmaengine.Lib.Effect

/-!
# Programs that reflect a program of a part

`Reflects l R E m p`: on the part `l` the program `m` does what `p` does, with the same outcome.  The state it starts in and
the state it ends in are related by `R` when it returns and by `E` when it throws.  So `m` is `p` with some bookkeeping, and
`R` and `E` say what the bookkeeping may do.  `Shadows l R` is the case of one relation for both.
-/

namespace Effect

variable {ε σ τ α β : Type} {l : Part σ τ} {R S T E F G : σ → σ → Prop} {m : Prog ε σ α} {p : Prog ε τ α}

def Reflects (l : Part σ τ) (R E : σ → σ → Prop) (m : Prog ε σ α) (p : Prog ε τ α) : Prop :=
  ∀ s, (∀ a t, p (l.get s) = .ok a t → ∃ s', m s = .ok a s' ∧ l.get s' = t ∧ R s s') ∧
    ∀ e t, p (l.get s) = .error e t → ∃ s', m s = .error e s' ∧ l.get s' = t ∧ E s s'

abbrev Shadows (l : Part σ τ) (R : σ → σ → Prop) (m : Prog ε σ α) (p : Prog ε τ α) : Prop := Reflects l R R m p

/-- The outcome tells how the part went. -/
theorem Reflects.of_ok (h : Reflects l R E m p) {s s' : σ} {a : α} (hrun : m s = .ok a s') :
    p (l.get s) = .ok a (l.get s') ∧ R s s' := by
  cases hp : p (l.get s) with
  | ok b t =>
    obtain ⟨s₁, hrun', rfl, hR⟩ := (h s).1 b t hp
    rw [hrun] at hrun'
    cases hrun'
    exact ⟨rfl, hR⟩
  | error e t =>
    obtain ⟨s₁, hrun', -⟩ := (h s).2 e t hp
    rw [hrun] at hrun'
    cases hrun'

theorem Reflects.of_error (h : Reflects l R E m p) {s s' : σ} {e : ε} (hrun : m s = .error e s') :
    p (l.get s) = .error e (l.get s') ∧ E s s' := by
  cases hp : p (l.get s) with
  | ok b t =>
    obtain ⟨s₁, hrun', -⟩ := (h s).1 b t hp
    rw [hrun] at hrun'
    cases hrun'
  | error e' t =>
    obtain ⟨s₁, hrun', rfl, hE⟩ := (h s).2 e' t hp
    rw [hrun] at hrun'
    cases hrun'
    exact ⟨rfl, hE⟩

/-- Whatever the outcome, the bookkeeping stays within `R`. -/
theorem Reflects.always (h : Shadows l R m p) : Always R m := by
  intro s
  cases hm : m s with
  | ok a s' => exact (h.of_ok hm).2
  | error e s' => exact (h.of_error hm).2

theorem Reflects.mono (h : Reflects l R E m p) (hR : ∀ s s', R s s' → S s s') (hE : ∀ s s', E s s' → F s s') :
    Reflects l S F m p := by
  intro s
  constructor
  · intro a t hp
    obtain ⟨s', hrun, ht, hRs⟩ := (h s).1 a t hp
    exact ⟨s', hrun, ht, hR s s' hRs⟩
  · intro e t hp
    obtain ⟨s', hrun, ht, hEs⟩ := (h s).2 e t hp
    exact ⟨s', hrun, ht, hE s s' hEs⟩

/-- One program after the other. -/
theorem reflects_seq {x : Prog ε σ α} {f : α → Prog ε σ β} {y : Prog ε τ α} {g : α → Prog ε τ β} (hx : Reflects l R E x y)
    (hf : ∀ a, Reflects l S F (f a) (g a)) (hstop : ∀ s s', E s s' → G s s')
    (hok : ∀ s s' s'', R s s' → S s' s'' → T s s'') (herror : ∀ s s' s'', R s s' → F s' s'' → G s s'') :
    Reflects l T G (x >>= f) (y >>= g) := by
  intro s
  cases hy : y (l.get s) with
  | ok a t =>
    obtain ⟨s₁, hrun, rfl, hR⟩ := (hx s).1 a t hy
    constructor
    · intro b t h
      rw [bind_of_ok hy] at h
      obtain ⟨s', hrest, ht, hS⟩ := (hf a s₁).1 b t h
      exact ⟨s', by rw [bind_of_ok hrun, hrest], ht, hok _ _ _ hR hS⟩
    · intro e t h
      rw [bind_of_ok hy] at h
      obtain ⟨s', hrest, ht, hF⟩ := (hf a s₁).2 e t h
      exact ⟨s', by rw [bind_of_ok hrun, hrest], ht, herror _ _ _ hR hF⟩
  | error e t =>
    obtain ⟨s₁, hrun, ht, hE⟩ := (hx s).2 e t hy
    constructor
    · intro b t' h
      rw [bind_of_error hy] at h
      cases h
    · intro e' t' h
      rw [bind_of_error hy] at h
      cases h
      exact ⟨s₁, by rw [bind_of_error hrun], ht, hstop _ _ hE⟩

/-- A program of the part, and how it went. -/
theorem reflects_within (p : Prog ε τ α) :
    Reflects l (fun s s' => ∃ a t, p (l.get s) = .ok a t ∧ s' = l.set t s)
      (fun s s' => ∃ e t, p (l.get s) = .error e t ∧ s' = l.set t s) (within l p) p := by
  intro s
  constructor
  · intro a t h
    exact ⟨l.set t s, by simp [within, h], l.get_set t s, a, t, h, rfl⟩
  · intro e t h
    exact ⟨l.set t s, by simp [within, h], l.get_set t s, e, t, h, rfl⟩

theorem shadows_within (hset : ∀ t s, R s (l.set t s)) (p : Prog ε τ α) : Shadows l R (within l p) p := by
  refine (reflects_within p).mono ?_ ?_
  all_goals
    rintro s _ ⟨_, t, -, rfl⟩
    exact hset t s

theorem reflects_readOnly {p : Prog ε τ α} (h : ReadOnly p) :
    Reflects l (fun s s' => s' = s ∧ ∃ a, p (l.get s) = .ok a (l.get s)) (fun s s' => s' = s) (within l p) p := by
  refine (reflects_within p).mono ?_ ?_
  · rintro s _ ⟨a, t, hp, rfl⟩
    obtain rfl : l.get s = t := h.eq_of_ok hp
    exact ⟨l.set_get s, a, hp⟩
  · rintro s _ ⟨e, t, hp, rfl⟩
    have hsame := h (l.get s)
    rw [hp] at hsame
    obtain rfl : l.get s = t := hsame
    exact l.set_get s

theorem shadows_pure [Std.Refl R] (a : α) : Shadows l R (pure a : Prog ε σ α) (pure a) := by
  intro s
  constructor
  · intro b t h
    obtain ⟨rfl, rfl⟩ := pure_eq_ok.mp h
    exact ⟨s, rfl, rfl, Std.Refl.refl s⟩
  · intro e t h
    cases h

theorem shadows_bind [IsTrans σ R] {x : Prog ε σ α} {f : α → Prog ε σ β} {y : Prog ε τ α} {g : α → Prog ε τ β}
    (hx : Shadows l R x y) (hf : ∀ a, Shadows l R (f a) (g a)) : Shadows l R (x >>= f) (y >>= g) :=
  reflects_seq hx hf (fun _ _ h => h) (fun _ _ _ h h' => IsTrans.trans _ _ _ h h')
    fun _ _ _ h h' => IsTrans.trans _ _ _ h h'

theorem shadows_each [Std.Refl R] [IsTrans σ R] {f : β → Prog ε σ Unit} {g : β → Prog ε τ Unit}
    (hf : ∀ b, Shadows l R (f b) (g b)) (bs : List β) : Shadows l R (each f bs) (each g bs) := by
  induction bs with
  | nil => exact shadows_pure ()
  | cons b bs ih => exact shadows_bind (hf b) fun _ => ih

/-! ## Bookkeeping -/

/-- A program that always returns and leaves the part alone. -/
def Silent (l : Part σ τ) (R : σ → σ → Prop) (x : Prog ε σ β) : Prop :=
  ∀ s, ∃ b s', x s = .ok b s' ∧ l.get s' = l.get s ∧ R s s'

theorem silent_modify {f : σ → σ} (hpart : ∀ s, l.get (f s) = l.get s) (hf : ∀ s, R s (f s)) :
    Silent l R (modify f : Prog ε σ Unit) := fun s => ⟨(), f s, rfl, hpart s, hf s⟩

theorem silent_bind [IsTrans σ R] {x : Prog ε σ α} {f : α → Prog ε σ β} (hx : Silent l R x) (hf : ∀ a, Silent l R (f a)) :
    Silent l R (x >>= f) := by
  intro s
  obtain ⟨a, s₁, hrun, hpart, hR⟩ := hx s
  obtain ⟨b, s₂, hrest, hpart', hR'⟩ := hf a s₁
  exact ⟨b, s₂, by rw [bind_of_ok hrun, hrest], hpart'.trans hpart, IsTrans.trans _ _ _ hR hR'⟩

theorem silent_get [Std.Refl R] : Silent l R (get : Prog ε σ σ) := fun s => ⟨s, s, rfl, rfl, Std.Refl.refl s⟩

theorem silent_each [Std.Refl R] [IsTrans σ R] {f : β → Prog ε σ Unit} (hf : ∀ b, Silent l R (f b)) (bs : List β) :
    Silent l R (each f bs) := by
  induction bs with
  | nil => exact fun s => ⟨(), s, rfl, rfl, Std.Refl.refl s⟩
  | cons b bs ih => exact silent_bind (hf b) fun _ => ih

theorem Silent.before {x : Prog ε σ β} {f : β → Prog ε σ α} (hx : Silent l R x) (hf : ∀ b, Reflects l S F (f b) p)
    (hok : ∀ s s' s'', R s s' → S s' s'' → T s s'') (herror : ∀ s s' s'', R s s' → F s' s'' → G s s'') :
    Reflects l T G (x >>= f) p := by
  intro s
  obtain ⟨b, s₁, hrun, hpart, hR⟩ := hx s
  rw [bind_of_ok hrun, ← hpart]
  constructor
  · intro a t h
    obtain ⟨s', hrest, ht, hS⟩ := (hf b s₁).1 a t h
    exact ⟨s', hrest, ht, hok _ _ _ hR hS⟩
  · intro e t h
    obtain ⟨s', hrest, ht, hF⟩ := (hf b s₁).2 e t h
    exact ⟨s', hrest, ht, herror _ _ _ hR hF⟩

theorem Silent.bind [IsTrans σ R] {x : Prog ε σ β} {f : β → Prog ε σ α} (hx : Silent l R x)
    (hf : ∀ b, Shadows l R (f b) p) : Shadows l R (x >>= f) p :=
  hx.before hf (fun _ _ _ h h' => IsTrans.trans _ _ _ h h') fun _ _ _ h h' => IsTrans.trans _ _ _ h h'

theorem Reflects.then {x m : Prog ε σ Unit} {p : Prog ε τ Unit} (hm : Reflects l R E m p) (hx : Silent l S x)
    (hok : ∀ s s' s'', R s s' → S s' s'' → T s s'') : Reflects l T E (m >>= fun _ => x) p := by
  intro s
  constructor
  · intro a t h
    obtain ⟨s₁, hrun, ht, hR⟩ := (hm s).1 a t h
    obtain ⟨_, s', hrest, hpart, hS⟩ := hx s₁
    exact ⟨s', by rw [bind_of_ok hrun, hrest], hpart.trans ht, hok _ _ _ hR hS⟩
  · intro e t h
    obtain ⟨s', hrun, ht, hE⟩ := (hm s).2 e t h
    exact ⟨s', by rw [bind_of_error hrun], ht, hE⟩

/-! ## A part of a part -/

theorem within_bind (hset : ∀ t t' s, l.set t (l.set t' s) = l.set t s) (x : Prog ε τ α) (f : α → Prog ε τ β) :
    within l (x >>= f) = within l x >>= fun a => within l (f a) := by
  funext s
  cases hx : x (l.get s) with
  | ok a t =>
    rw [bind_of_ok (show within l x s = .ok a (l.set t s) by simp [within, hx])]
    simp only [within, bind_of_ok hx, l.get_set]
    cases f a t with
    | ok b t' => simp [hset]
    | error e t' => simp [hset]
  | error e t =>
    rw [bind_of_error (show within l x s = .error e (l.set t s) by simp [within, hx])]
    simp [within, bind_of_error hx]

end Effect
