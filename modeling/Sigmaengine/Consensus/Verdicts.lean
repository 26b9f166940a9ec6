import Sigmaengine.Consensus.Authority
import Sigmaengine.Consensus.SignatureRuns

/-!
# The verdict on a transaction's signatures

What `verify_authority` answers, without its cache: it asks for one of the alternatives of every required authority, in
groups with an exception each, and then for signatures that nothing used.
-/

namespace Sigmaengine

open Effect SignState

/-- What may satisfy a requirement: the account itself, or an authority. -/
inductive Alternative where
  | account (id : Bytes)
  | authority (auth : Authority)

namespace Alternative

variable (keys : List PublicKey) (nested : Bytes → Authority) (depth : Nat)

/-- Whether the alternative is satisfied, and the keys used to find out. -/
def answer : Alternative → Bool × List PublicKey
  | account id => weighAccount keys nested (depth + 1) id
  | authority auth => weigh keys nested depth auth

/-- The keys satisfy the alternative. -/
def met : Alternative → Bool
  | account id => approvedWithin keys nested (depth + 1) id
  | authority auth => satisfiedWithin keys nested depth auth

/-- The weights of the authority fit. -/
def Fit : Alternative → Prop
  | account _ => True
  | authority auth => Fits auth

/-- No account is nested deeper than the bound. -/
def Uncut : Alternative → Prop
  | account id => id = tempId ∨ Shallow nested depth (nested id)
  | authority auth => Shallow nested depth auth

variable {keys nested depth} {keys' : List PublicKey} {alt : Alternative}

theorem answer_account {id : Bytes} : (account id).answer keys nested depth =
    if id = tempId then (true, []) else weigh keys nested depth (nested id) := rfl

theorem answer_fst : (alt.answer keys nested depth).1 = alt.met keys nested depth := by
  cases alt with
  | account id => exact weighAccount_fst (depth + 1) id
  | authority auth => exact weigh_fst depth auth

theorem met_mono (hsub : keys ⊆ keys') (h : alt.met keys nested depth = true) : alt.met keys' nested depth = true := by
  cases alt with
  | account id => exact approvedWithin_mono hsub (depth + 1) id h
  | authority auth => exact satisfiedWithin_mono hsub depth auth h

/-- Of the old keys, no more are used when there are more keys. -/
theorem answer_anti (hsub : keys ⊆ keys') : ∀ k ∈ (alt.answer keys' nested depth).2, k ∈ keys →
    k ∈ (alt.answer keys nested depth).2 := by
  cases alt with
  | account id =>
    rw [answer_account, answer_account]
    split
    · simp
    · exact weigh_anti hsub depth (nested id)
  | authority auth => exact weigh_anti hsub depth auth

end Alternative

/-- The authorities that the getters return. -/
structure Assignment where
  active : Bytes → Authority
  owner : Bytes → Authority
  posting : Bytes → Authority

namespace Assignment

variable (g : Assignment) (r : RequiredAuthorities)

def getters : AuthorityGetters where
  getActive id := some (g.active id)
  getOwner id := some (g.owner id)
  getPosting id := some (g.posting id)

/-- What an account entry stands for. -/
def nested : Bytes → Authority := if r.posting ≠ [] then g.posting else g.active

/-- The alternatives for every required authority, in groups with the text of their exception. -/
def groups : List (String × List (List Alternative)) :=
  if r.posting ≠ [] then
    [("Missing Posting Authority", r.posting.map fun a =>
      [.account a.toBytes, .authority (g.active a.toBytes), .authority (g.owner a.toBytes)])]
  else
    [("Missing Authority", r.other.map fun auth => [.authority auth]),
      ("Missing Active Authority", r.active.map fun a => [.account a.toBytes, .authority (g.owner a.toBytes)]),
      ("Missing Owner Authority", r.owner.map fun a => [.authority (g.owner a.toBytes)])]

/-- The weights of all authorities fit. -/
structure Fit : Prop where
  active : ∀ id, Fits (g.active id)
  owner : ∀ id, Fits (g.owner id)
  posting : ∀ id, Fits (g.posting id)
  other : ∀ auth ∈ r.other, Fits auth

end Assignment

/-- Posting authority is required next to another one. -/
def Mixed (r : RequiredAuthorities) : Prop := r.posting ≠ [] ∧ ¬ (r.active = [] ∧ r.owner = [] ∧ r.other = [])

section Alternatives

variable (keys : List PublicKey) (nested : Bytes → Authority) (depth : Nat)

/-- The alternatives in order until one is satisfied, and the keys used. -/
def tryAll : List Alternative → Bool × List PublicKey
  | [] => (false, [])
  | alt :: alts =>
    if (alt.answer keys nested depth).1 = true then (true, (alt.answer keys nested depth).2)
    else ((tryAll alts).1, (alt.answer keys nested depth).2 ++ (tryAll alts).2)

/-- The first group in which an authority is missing. -/
def verdict (groups : List (String × List (List Alternative))) : Option String :=
  groups.findSome? fun gr => if ∃ alts ∈ gr.2, (tryAll keys nested depth alts).1 = false then some gr.1 else none

/-- The keys used for all groups. -/
def usedFor (groups : List (String × List (List Alternative))) : List PublicKey :=
  groups.flatMap fun gr => gr.2.flatMap fun alts => (tryAll keys nested depth alts).2

variable {keys nested depth} {keys' : List PublicKey} {alts : List Alternative}
  {groups groups' : List (String × List (List Alternative))}

theorem tryAll_fst : (tryAll keys nested depth alts).1 = true ↔ ∃ alt ∈ alts, alt.met keys nested depth = true := by
  induction alts with
  | nil => simp [tryAll]
  | cons alt alts ih =>
    unfold tryAll
    rw [Alternative.answer_fst]
    by_cases h : alt.met keys nested depth = true
    · rw [if_pos h]
      simp [h]
    · rw [if_neg h]
      simp [h, ih]

theorem tryAll_mono (hsub : keys ⊆ keys') (h : (tryAll keys nested depth alts).1 = true) :
    (tryAll keys' nested depth alts).1 = true := by
  obtain ⟨alt, hmem, hmet⟩ := tryAll_fst.mp h
  exact tryAll_fst.mpr ⟨alt, hmem, alt.met_mono hsub hmet⟩

/-- Of the old keys, no more are used when there are more keys. -/
theorem tryAll_anti (hsub : keys ⊆ keys') : ∀ k ∈ (tryAll keys' nested depth alts).2, k ∈ keys →
    k ∈ (tryAll keys nested depth alts).2 := by
  induction alts with
  | nil => simp [tryAll]
  | cons alt alts ih =>
    intro k hk hold
    unfold tryAll at hk ⊢
    rw [Alternative.answer_fst] at hk ⊢
    split at hk
    · have hown := alt.answer_anti hsub k hk hold
      split
      · exact hown
      · exact List.mem_append_left _ hown
    · rename_i hnot
      rw [if_neg fun h => hnot (alt.met_mono hsub h)]
      rcases List.mem_append.mp hk with hk | hk
      · exact List.mem_append_left _ (alt.answer_anti hsub k hk hold)
      · exact List.mem_append_right _ (ih k hk hold)

theorem verdict_eq_none : verdict keys nested depth groups = none ↔
    ∀ gr ∈ groups, ∀ alts ∈ gr.2, (tryAll keys nested depth alts).1 = true := by
  unfold verdict
  simp only [List.findSome?_eq_none_iff]
  refine forall₂_congr fun gr _ => ?_
  rw [ite_eq_right_iff]
  simp

theorem mem_usedFor {k : PublicKey} : k ∈ usedFor keys nested depth groups ↔
    ∃ gr ∈ groups, ∃ alts ∈ gr.2, k ∈ (tryAll keys nested depth alts).2 := by
  simp [usedFor, List.mem_flatMap]

/-- Groups that ask for the same, in another order. -/
def AlikeGroups : List (String × List (List Alternative)) → List (String × List (List Alternative)) → Prop :=
  List.Forall₂ fun gr gr' => gr.1 = gr'.1 ∧ ∀ alts, alts ∈ gr.2 ↔ alts ∈ gr'.2

theorem AlikeGroups.verdict_eq (h : AlikeGroups groups groups') :
    verdict keys nested depth groups = verdict keys nested depth groups' := by
  induction h with
  | nil => rfl
  | cons hone _ ih =>
    unfold verdict at ih ⊢
    simp only [List.findSome?_cons, ih, hone.1, hone.2]

theorem AlikeGroups.forall_iff (h : AlikeGroups groups groups') {P : List Alternative → Prop} :
    (∀ gr ∈ groups, ∀ alts ∈ gr.2, P alts) ↔ ∀ gr ∈ groups', ∀ alts ∈ gr.2, P alts := by
  induction h with
  | nil => rfl
  | cons hone _ ih => simp only [List.forall_mem_cons, hone.2, ih]

theorem AlikeGroups.mem_usedFor_iff (h : AlikeGroups groups groups') (k : PublicKey) :
    k ∈ usedFor keys nested depth groups ↔ k ∈ usedFor keys nested depth groups' := by
  induction h with
  | nil => rfl
  | cons hone _ ih =>
    simp only [mem_usedFor, List.exists_mem_cons_iff, hone.2] at ih ⊢
    rw [ih]

end Alternatives

/-! ## What `verify_authority` does -/

section Runs

variable {keys : List PublicKey} {nested : Bytes → Authority} {depth : Nat} {s s' : SignState} {error : String}
  {alts : List Alternative} {ps : List (Prog Error SignState Bool)}

/-- Programs that find what `weigh` says about the alternatives. -/
def FindAll (keys : List PublicKey) (nested : Bytes → Authority) (depth : Nat) (alts : List Alternative)
    (ps : List (Prog Error SignState Bool)) : Prop :=
  List.Forall₂ (fun alt p => Finds keys nested (alt.answer keys nested depth) p) alts ps

theorem requireOneOf_exact (h : FindAll keys nested depth alts ps) (hs : Exact keys nested s) :
    ((tryAll keys nested depth alts).1 = true → ∃ s', requireOneOf error ps s = .ok () s' ∧ Exact keys nested s' ∧
        Uses s s' (tryAll keys nested depth alts).2) ∧
      ((tryAll keys nested depth alts).1 = false → ∃ s', requireOneOf error ps s = .error (.assertion error) s') := by
  unfold FindAll at h
  induction h generalizing s with
  | nil => exact ⟨fun hmet => Bool.noConfusion hmet, fun _ => ⟨s, rfl⟩⟩
  | @cons alt p alts ps hone _ ih =>
    obtain ⟨s₁, hp, hs₁, huses⟩ := hone s hs
    obtain ⟨hmet, hmissing⟩ := ih hs₁
    unfold tryAll requireOneOf
    rw [bind_of_ok hp]
    by_cases hsat : (alt.answer keys nested depth).1 = true
    · rw [if_pos hsat, if_pos hsat]
      exact ⟨fun _ => ⟨s₁, rfl, hs₁, huses⟩, fun h => Bool.noConfusion h⟩
    · rw [if_neg hsat, if_neg hsat]
      refine ⟨fun h => ?_, hmissing⟩
      obtain ⟨s', hrun, hs', huses'⟩ := hmet h
      exact ⟨s', hrun, hs', huses.trans huses'⟩

variable {β : Type} {altsOf : β → List Alternative} {psOf : β → List (Prog Error SignState Bool)} {bs : List β}

/-- One group of required authorities. -/
theorem each_exact (h : ∀ b ∈ bs, FindAll keys nested depth (altsOf b) (psOf b)) (hs : Exact keys nested s) :
    ((∀ x ∈ bs.map altsOf, (tryAll keys nested depth x).1 = true) →
      ∃ s', each (fun b => requireOneOf error (psOf b)) bs s = .ok () s' ∧ Exact keys nested s' ∧
        Uses s s' ((bs.map altsOf).flatMap fun x => (tryAll keys nested depth x).2)) ∧
    ((∃ x ∈ bs.map altsOf, (tryAll keys nested depth x).1 = false) →
      ∃ s', each (fun b => requireOneOf error (psOf b)) bs s = .error (.assertion error) s') := by
  induction bs generalizing s with
  | nil => exact ⟨fun _ => ⟨s, rfl, hs, .refl⟩, fun ⟨x, hx, _⟩ => absurd hx List.not_mem_nil⟩
  | cons b bs ih =>
    obtain ⟨hone, hrest⟩ := List.forall_mem_cons.mp h
    obtain ⟨hmet, hmissing⟩ := @requireOneOf_exact keys nested depth s error _ _ hone hs
    unfold each
    rw [List.map_cons, List.forall_mem_cons, List.exists_mem_cons_iff, List.flatMap_cons]
    by_cases hb : (tryAll keys nested depth (altsOf b)).1 = true
    · obtain ⟨s₁, hrun, hs₁, huses⟩ := hmet hb
      obtain ⟨hmets, hmissings⟩ := ih hrest hs₁
      rw [bind_of_ok hrun]
      constructor
      · rintro ⟨-, hall⟩
        obtain ⟨s', hrun', hs', huses'⟩ := hmets hall
        exact ⟨s', hrun', hs', huses.trans huses'⟩
      · intro hsome
        refine hmissings (hsome.resolve_left fun hfalse => ?_)
        rw [hb] at hfalse
        cases hfalse
    · obtain ⟨s', hrun⟩ := hmissing (Bool.eq_false_iff.mpr hb)
      rw [bind_of_error hrun]
      exact ⟨fun h => absurd h.1 hb, fun _ => ⟨s', rfl⟩⟩

/-- A program that asks for the groups: it throws for the first one with a missing authority. -/
def Asks (keys : List PublicKey) (nested : Bytes → Authority) (depth : Nat)
    (groups : List (String × List (List Alternative))) (m : Prog Error SignState Unit) : Prop :=
  ∀ s, Exact keys nested s →
    (verdict keys nested depth groups = none →
      ∃ s', m s = .ok () s' ∧ Exact keys nested s' ∧ Uses s s' (usedFor keys nested depth groups)) ∧
    ∀ text, verdict keys nested depth groups = some text → ∃ s', m s = .error (.assertion text) s'

variable {groups : List (String × List (List Alternative))} {m m' : Prog Error SignState Unit}

theorem asks_nil : Asks keys nested depth [] (pure ()) :=
  fun s hs => ⟨fun _ => ⟨s, rfl, hs, .refl⟩, (fun _ h => by cases h)⟩

theorem asks_cons (h : ∀ b ∈ bs, FindAll keys nested depth (altsOf b) (psOf b)) (hm : Asks keys nested depth groups m) :
    Asks keys nested depth ((error, bs.map altsOf) :: groups) (do
      each (fun b => requireOneOf error (psOf b)) bs
      m) := by
  intro s hs
  obtain ⟨hmet, hmissing⟩ := @each_exact keys nested depth s error _ _ _ _ h hs
  by_cases hsome : ∃ x ∈ bs.map altsOf, (tryAll keys nested depth x).1 = false
  · have hverdict : verdict keys nested depth ((error, bs.map altsOf) :: groups) = some error := by
      unfold verdict
      rw [List.findSome?_cons, if_pos hsome]
    obtain ⟨s', hrun⟩ := hmissing hsome
    rw [hverdict, bind_of_error hrun]
    refine ⟨(fun h => by cases h), fun text htext => ?_⟩
    cases htext
    exact ⟨s', rfl⟩
  · have hverdict : verdict keys nested depth ((error, bs.map altsOf) :: groups) = verdict keys nested depth groups := by
      unfold verdict
      rw [List.findSome?_cons, if_neg hsome]
    obtain ⟨s₁, hrun, hs₁, huses⟩ := hmet fun x hx => by
      by_contra hx'
      exact hsome ⟨x, hx, Bool.eq_false_iff.mpr hx'⟩
    obtain ⟨hmets, hmissings⟩ := hm s₁ hs₁
    rw [hverdict, bind_of_ok hrun]
    refine ⟨fun h => ?_, hmissings⟩
    obtain ⟨s', hrun', hs', huses'⟩ := hmets h
    exact ⟨s', hrun', hs', huses.trans huses'⟩

theorem asks_last (h : ∀ b ∈ bs, FindAll keys nested depth (altsOf b) (psOf b)) :
    Asks keys nested depth [(error, bs.map altsOf)] (each (fun b => requireOneOf error (psOf b)) bs) := by
  have hasks := @asks_cons keys nested depth error _ _ _ _ _ _ h asks_nil
  rwa [bind_pure_unit] at hasks

/-! ## The checks of the source -/

variable {get : Bytes → Authority} {a : AccountName}

theorem finds_stored (hnested : ∀ id, Fits (nested id)) (hget : Fits (get a.toBytes))
    (hshallow : Shallow nested depth (get a.toBytes)) :
    Finds keys nested ((Alternative.authority (get a.toBytes)).answer keys nested depth)
      (checkStored (fun id => some (get id)) (fun id => some (nested id)) depth a) :=
  checkAuthority_exact hnested depth hget hshallow

theorem finds_account (hnested : ∀ id, Fits (nested id))
    (hshallow : a.toBytes = tempId ∨ Shallow nested depth (nested a.toBytes)) :
    Finds keys nested ((Alternative.account a.toBytes).answer keys nested depth)
      (checkAccount (fun id => some (nested id)) depth a.toBytes) := by
  intro s hs
  unfold checkAccount
  rw [bind_of_ok (get_apply s)]
  split
  · rename_i hkept
    obtain ⟨hsat, hused⟩ := @Exact.kept keys nested s (depth + 1) _ hs (List.contains_iff_mem.mp hkept)
      (hshallow.imp_right fun h => ⟨depth, rfl, h⟩)
    have hanswer : (Alternative.account a.toBytes).answer keys nested depth =
        weighAccount keys nested (depth + 1) a.toBytes := rfl
    rw [hanswer, hsat]
    exact ⟨s, rfl, hs, .of_used hused⟩
  · rename_i hnew
    have htemp : a.toBytes ≠ tempId := by
      intro heq
      rw [heq] at hnew
      exact hnew (List.contains_iff_mem.mpr hs.temp)
    rw [Alternative.answer_account, if_neg htemp]
    exact checkAuthority_exact hnested depth (hnested _) (hshallow.resolve_left htemp) s hs

theorem exact_init (keys : List PublicKey) (nested : Bytes → Authority) : Exact keys nested (init keys []) where
  signed k := by
    unfold Signed init
    simp
  uniform k hused := by
    unfold Used init at hused
    simp at hused
  available := rfl
  temp := List.mem_singleton.mpr rfl
  approved id hid := .inl (List.mem_singleton.mp hid)

/-- Some signature was not used. -/
theorem hasUnused_iff (hs : Exact keys nested s) : s.hasUnused = true ↔ ∃ k ∈ keys, ¬ Used s k := by
  unfold hasUnused
  simp only [List.any_eq_true, Bool.not_eq_true', Prod.exists]
  constructor
  · rintro ⟨k, b, hmem, rfl⟩
    exact ⟨k, (hs.signed k).mp ⟨false, hmem⟩, fun hused => hs.uniform k hused hmem⟩
  · rintro ⟨k, hk, hnot⟩
    obtain ⟨b, hmem⟩ := (hs.signed k).mpr hk
    cases b with
    | true => exact absurd hmem hnot
    | false => exact ⟨k, false, hmem, rfl⟩

end Runs

section Required

variable {g : Assignment} {r : RequiredAuthorities} {depth : Nat} {keys : List PublicKey}

theorem checkRequired_posting (getters : AuthorityGetters) (h : r.posting ≠ []) (hmixed : ¬ Mixed r) :
    checkRequired getters depth r = each (fun a => requireOneOf "Missing Posting Authority"
      [checkAccount getters.getPosting depth a.toBytes, checkStored getters.getActive getters.getPosting depth a,
        checkStored getters.getOwner getters.getPosting depth a]) r.posting := by
  unfold Mixed at hmixed
  push Not at hmixed
  obtain ⟨hactive, howner, hother⟩ := hmixed h
  unfold checkRequired
  rw [if_pos h, hactive, howner, hother]
  rfl

theorem checkRequired_active (getters : AuthorityGetters) (h : r.posting = []) : checkRequired getters depth r = (do
    each (fun auth => requireOneOf "Missing Authority" [checkAuthority getters.getActive depth auth]) r.other
    each (fun a => requireOneOf "Missing Active Authority"
      [checkAccount getters.getActive depth a.toBytes, checkStored getters.getOwner getters.getActive depth a]) r.active
    each (fun a => requireOneOf "Missing Owner Authority"
      [checkStored getters.getOwner getters.getActive depth a]) r.owner) := by
  unfold checkRequired
  rw [if_neg (not_not.mpr h)]

/-- No account in the required authorities is nested deeper than the bound. -/
def Uncut (g : Assignment) (r : RequiredAuthorities) (depth : Nat) : Prop :=
  ∀ gr ∈ g.groups r, ∀ alts ∈ gr.2, ∀ alt ∈ alts, alt.Uncut (g.nested r) depth

theorem checkRequired_asks (hfit : g.Fit r) (huncut : Uncut g r depth) (hmixed : ¬ Mixed r) :
    Asks keys (g.nested r) depth (g.groups r) (checkRequired g.getters depth r) := by
  unfold Uncut Assignment.groups at huncut
  by_cases hposting : r.posting ≠ []
  · have hnested : g.nested r = g.posting := if_pos hposting
    rw [checkRequired_posting _ hposting hmixed, Assignment.groups, if_pos hposting, hnested]
    rw [if_pos hposting, hnested] at huncut
    simp only [List.forall_mem_cons, List.forall_mem_map] at huncut
    refine asks_last fun a ha => ?_
    obtain ⟨hown, hactive, howner, -⟩ := huncut.1 a ha
    exact .cons (finds_account hfit.posting hown) (.cons (finds_stored hfit.posting (hfit.active _) hactive)
      (.cons (finds_stored hfit.posting (hfit.owner _) howner) .nil))
  · have hnested : g.nested r = g.active := if_neg hposting
    rw [checkRequired_active _ (not_not.mp hposting), Assignment.groups, if_neg hposting, hnested]
    rw [if_neg hposting, hnested] at huncut
    simp only [List.forall_mem_cons, List.forall_mem_map] at huncut
    obtain ⟨hother, hactive, howner, -⟩ := huncut
    refine asks_cons (fun auth hauth => ?_) (asks_cons (fun a ha => ?_) (asks_last fun a ha => ?_))
    · exact .cons (checkAuthority_exact hfit.active depth (hfit.other auth hauth) (hother auth hauth).1) .nil
    · obtain ⟨hown, hstored, -⟩ := hactive a ha
      exact .cons (finds_account hfit.active hown) (.cons (finds_stored hfit.active (hfit.owner _) hstored) .nil)
    · exact .cons (finds_stored hfit.active (hfit.owner _) (howner a ha).1) .nil

/-- **Where nothing is cut** `verify_authority` throws for the first group with a missing authority, and otherwise for a
signature that was not used. -/
theorem verifyAuthorityAt_eq (hfit : g.Fit r) (huncut : Uncut g r depth) (hmixed : ¬ Mixed r) :
    verifyAuthorityAt depth g.getters r keys =
      match verdict keys (g.nested r) depth (g.groups r) with
      | some text => .error (.assertion text)
      | none =>
        if ∀ k ∈ keys, k ∈ usedFor keys (g.nested r) depth (g.groups r) then .ok ()
        else .error unnecessarySignature := by
  have hs := exact_init keys (g.nested r)
  obtain ⟨hpass, hmissing⟩ := @checkRequired_asks g r depth keys hfit huncut hmixed _ hs
  unfold verifyAuthorityAt
  cases hverdict : verdict keys (g.nested r) depth (g.groups r) with
  | some text =>
    obtain ⟨s', hrun⟩ := hmissing text hverdict
    rw [hrun]
  | none =>
    obtain ⟨s', hrun, hs', huses⟩ := hpass hverdict
    have hused : ∀ k, Used s' k ↔ k ∈ usedFor keys (g.nested r) depth (g.groups r) := by
      intro k
      rw [huses k]
      simp [Used, init]
    rw [hrun]
    simp only
    by_cases hall : ∀ k ∈ keys, k ∈ usedFor keys (g.nested r) depth (g.groups r)
    · rw [if_pos hall, if_neg]
      rw [hasUnused_iff hs']
      rintro ⟨k, hk, hnot⟩
      exact hnot ((hused k).mpr (hall k hk))
    · rw [if_neg hall, if_pos]
      rw [hasUnused_iff hs']
      push Not at hall
      obtain ⟨k, hk, hnot⟩ := hall
      exact ⟨k, hk, fun h => hnot ((hused k).mp h)⟩

end Required

/-! ## What is satisfied within the bound passes, whatever is cut -/

section Ready

variable {keys : List PublicKey} {nested : Bytes → Authority} {depth : Nat} {s : SignState} {error : String}
  {alts : List Alternative} {ps : List (Prog Error SignState Bool)}

theorem ready_init (keys : List PublicKey) : Ready keys (init keys []) where
  signed _ hk := ⟨false, List.mem_map_of_mem hk⟩
  available := rfl
  temp := List.mem_singleton.mpr rfl

/-- Programs that approve what is met. -/
def ApproveAll (keys : List PublicKey) (nested : Bytes → Authority) (depth : Nat) (alts : List Alternative)
    (ps : List (Prog Error SignState Bool)) : Prop :=
  List.Forall₂ (fun alt p => Approves keys (alt.met keys nested depth) p) alts ps

theorem requireOneOf_ready (h : ApproveAll keys nested depth alts ps) (hmet : (tryAll keys nested depth alts).1 = true)
    (hs : Ready keys s) : ∃ s', requireOneOf error ps s = .ok () s' ∧ Ready keys s' := by
  rw [tryAll_fst] at hmet
  unfold ApproveAll at h
  induction h generalizing s with
  | nil =>
    obtain ⟨alt, hmem, -⟩ := hmet
    cases hmem
  | @cons alt p alts ps hone _ ih =>
    obtain ⟨b, s₁, hp, hs₁, happroved⟩ := hone s hs
    unfold requireOneOf
    rw [bind_of_ok hp]
    cases b with
    | true => exact ⟨s₁, rfl, hs₁⟩
    | false =>
      obtain ⟨x, hmem, hx⟩ := hmet
      rcases List.mem_cons.mp hmem with rfl | hmem
      · exact absurd (happroved hx) Bool.false_ne_true
      · exact ih ⟨x, hmem, hx⟩ hs₁

/-- A program that goes through in every state. -/
def Passes (keys : List PublicKey) (m : Prog Error SignState Unit) : Prop :=
  ∀ s, Ready keys s → ∃ s', m s = .ok () s' ∧ Ready keys s'

variable {β : Type} {altsOf : β → List Alternative} {psOf : β → List (Prog Error SignState Bool)} {bs : List β}
  {m m' : Prog Error SignState Unit}

theorem Passes.bind (h : Passes keys m) (h' : Passes keys m') : Passes keys (do m; m') := by
  intro s hs
  obtain ⟨s₁, hrun, hs₁⟩ := h s hs
  rw [bind_of_ok hrun]
  exact h' s₁ hs₁

theorem passes_each (h : ∀ b ∈ bs, ApproveAll keys nested depth (altsOf b) (psOf b))
    (hmet : ∀ b ∈ bs, (tryAll keys nested depth (altsOf b)).1 = true) :
    Passes keys (each (fun b => requireOneOf error (psOf b)) bs) := by
  induction bs with
  | nil => exact fun s hs => ⟨s, rfl, hs⟩
  | cons b bs ih =>
    obtain ⟨hone, hrest⟩ := List.forall_mem_cons.mp h
    obtain ⟨hb, hbs⟩ := List.forall_mem_cons.mp hmet
    exact Passes.bind (fun s hs => requireOneOf_ready hone hb hs) (ih hrest hbs)

variable {get : Bytes → Authority} {a : AccountName} {g : Assignment} {r : RequiredAuthorities}

theorem approves_stored (hnested : ∀ id, Fits (nested id)) (hget : Fits (get a.toBytes)) :
    Approves keys ((Alternative.authority (get a.toBytes)).met keys nested depth)
      (checkStored (fun id => some (get id)) (fun id => some (nested id)) depth a) :=
  checkAuthority_ready hnested depth hget

theorem approves_account (hnested : ∀ id, Fits (nested id)) :
    Approves keys ((Alternative.account a.toBytes).met keys nested depth)
      (checkAccount (fun id => some (nested id)) depth a.toBytes) := by
  intro s hs
  unfold checkAccount
  rw [bind_of_ok (get_apply s)]
  split
  · exact ⟨true, s, rfl, hs, fun _ => rfl⟩
  · rename_i hnew
    have htemp : a.toBytes ≠ tempId := by
      intro heq
      rw [heq] at hnew
      exact hnew (List.contains_iff_mem.mpr hs.temp)
    have hmet : (Alternative.account a.toBytes).met keys nested depth =
        satisfiedWithin keys nested depth (nested a.toBytes) := if_neg htemp
    rw [hmet]
    exact checkAuthority_ready hnested depth (hnested _) s hs

theorem checkRequired_passes (hfit : g.Fit r) (hmixed : ¬ Mixed r)
    (hmet : verdict keys (g.nested r) depth (g.groups r) = none) :
    Passes keys (checkRequired g.getters depth r) := by
  rw [verdict_eq_none, Assignment.groups] at hmet
  by_cases hposting : r.posting ≠ []
  · have hnested : g.nested r = g.posting := if_pos hposting
    rw [if_pos hposting, hnested] at hmet
    simp only [List.forall_mem_cons, List.forall_mem_map] at hmet
    rw [checkRequired_posting _ hposting hmixed]
    refine passes_each (fun a _ => ?_) hmet.1
    exact .cons (approves_account hfit.posting) (.cons (approves_stored hfit.posting (hfit.active _))
      (.cons (approves_stored hfit.posting (hfit.owner _)) .nil))
  · have hnested : g.nested r = g.active := if_neg hposting
    rw [if_neg hposting, hnested] at hmet
    simp only [List.forall_mem_cons, List.forall_mem_map] at hmet
    obtain ⟨hother, hactive, howner, -⟩ := hmet
    rw [checkRequired_active _ (not_not.mp hposting)]
    refine (passes_each (fun auth hauth => ?_) hother).bind ((passes_each (fun a _ => ?_) hactive).bind
      (passes_each (fun a _ => ?_) howner))
    · exact .cons (checkAuthority_ready hfit.active depth (hfit.other auth hauth)) .nil
    · exact .cons (approves_account hfit.active) (.cons (approves_stored hfit.active (hfit.owner _)) .nil)
    · exact .cons (approves_stored hfit.active (hfit.owner _)) .nil

end Ready

/-- No authority is missing: at most there are unnecessary signatures. -/
def MissesNothing (answer : Except Error Unit) : Prop := answer = .ok () ∨ answer = .error unnecessarySignature

instance (answer : Except Error Unit) : Decidable (MissesNothing answer) := inferInstanceAs (Decidable (_ ∨ _))

section Answers

variable {g : Assignment} {r : RequiredAuthorities} {depth : Nat} {keys keys' : List PublicKey}

/-- **What is satisfied within the bound** by these keys alone passes. -/
theorem missesNothing_of_verdict (hfit : g.Fit r) (hmixed : ¬ Mixed r)
    (hmet : verdict keys (g.nested r) depth (g.groups r) = none) :
    MissesNothing (verifyAuthorityAt depth g.getters r keys) := by
  obtain ⟨s', hrun, -⟩ := checkRequired_passes hfit hmixed hmet _ (ready_init keys)
  unfold verifyAuthorityAt MissesNothing
  rw [hrun]
  simp only
  split
  · exact .inr rfl
  · exact .inl rfl

theorem verdict_mono {nested : Bytes → Authority} {groups : List (String × List (List Alternative))}
    (hsub : keys ⊆ keys') (h : verdict keys nested depth groups = none) : verdict keys' nested depth groups = none := by
  rw [verdict_eq_none] at h ⊢
  exact fun gr hgr alts halts => tryAll_mono hsub (h gr hgr alts halts)

/-- The exceptions for what is missing. -/
theorem mem_missingAuthority {nested : Bytes → Authority} {text : String}
    (h : verdict keys nested depth (g.groups r) = some text) : Error.assertion text ∈ missingAuthority := by
  obtain ⟨gr, hgr, hone⟩ := List.exists_of_findSome?_eq_some h
  have htext : gr.1 = text := by
    split at hone
    · exact Option.some.inj hone
    · cases hone
  have hname : ∀ gr ∈ g.groups r, Error.assertion gr.1 ∈ missingAuthority := by
    unfold Assignment.groups
    split
    · simp [missingAuthority]
    · simp [missingAuthority]
  exact htext ▸ hname gr hgr

theorem unnecessarySignature_not_missing : unnecessarySignature ∉ missingAuthority := by decide

end Answers

end Sigmaengine
