import WgTcp.Foundation.Transition

/-!
# Keypair slots

A peer keeps up to three keypairs: the one it sends with, the one before, and
the next one, which it may not use until the other side has. New keypairs,
confirmations and clears move them through the slots under
`keypair_update_lock`; only the first look of `wg_noise_received_with_keypair`
at the next slot is outside of it. Each slot owns a reference. The three
operations are permutations: what was in the slots, with the new keypair, is in
the slots or was put.
-/

namespace WgTcp

namespace Noise

/-! ## The operations under the lock -/

/-- `struct noise_keypairs`, over any kind of keypair. -/
structure NoiseKeypairs (κ : Type*) where
  currentKeypair : Option κ
  previousKeypair : Option κ
  nextKeypair : Option κ
deriving Repr, DecidableEq

section Slots

variable {κ : Type*}

def NoiseKeypairs.empty : NoiseKeypairs κ := ⟨none, none, none⟩

/-- The keypairs in the slots. -/
def NoiseKeypairs.slots (keypairs : NoiseKeypairs κ) : List κ :=
  keypairs.nextKeypair.toList ++ keypairs.previousKeypair.toList ++ keypairs.currentKeypair.toList

/-- `wg_noise_keypairs_clear`, with the keypairs that are put, in order. -/
def wgNoiseKeypairsClear (keypairs : NoiseKeypairs κ) : NoiseKeypairs κ × List κ :=
  (.empty, keypairs.nextKeypair.toList ++ keypairs.previousKeypair.toList ++
    keypairs.currentKeypair.toList)

/-- `add_new_keypair`, with the keypairs that are put, in order. -/
def addNewKeypair (initiator : Bool) (new : κ) (keypairs : NoiseKeypairs κ) :
    NoiseKeypairs κ × List κ :=
  if initiator then
    match keypairs.nextKeypair with
    | some next =>
        (⟨some new, some next, none⟩,
          keypairs.currentKeypair.toList ++ keypairs.previousKeypair.toList)
    | none => (⟨some new, keypairs.currentKeypair, none⟩, keypairs.previousKeypair.toList)
  else
    (⟨keypairs.currentKeypair, none, some new⟩,
      keypairs.nextKeypair.toList ++ keypairs.previousKeypair.toList)

/-- The locked part of `wg_noise_received_with_keypair`: whether the key is new, the slots, and
the keypair that is put. -/
def wgNoiseReceivedWithKeypair [DecidableEq κ] (received : κ) (keypairs : NoiseKeypairs κ) :
    Bool × NoiseKeypairs κ × List κ :=
  if keypairs.nextKeypair ≠ some received then (false, keypairs, [])
  else
    (true, ⟨some received, keypairs.currentKeypair, none⟩, keypairs.previousKeypair.toList)

theorem clear_perm (keypairs : NoiseKeypairs κ) :
    ((wgNoiseKeypairsClear keypairs).1.slots ++ (wgNoiseKeypairsClear keypairs).2).Perm
      keypairs.slots := by
  exact .refl _

theorem addNewKeypair_perm (initiator : Bool) (new : κ) (keypairs : NoiseKeypairs κ) :
    ((addNewKeypair initiator new keypairs).1.slots ++
      (addNewKeypair initiator new keypairs).2).Perm (new :: keypairs.slots) := by
  classical
  obtain ⟨current, previous, next⟩ := keypairs
  rw [List.perm_iff_count]
  intro k
  cases initiator with
  | true =>
    cases next with
    | none =>
      simp only [addNewKeypair, NoiseKeypairs.slots, if_true, Option.toList_none,
        Option.toList_some, List.nil_append, List.count_append, List.count_cons, List.count_nil]
      omega
    | some next =>
      simp only [addNewKeypair, NoiseKeypairs.slots, if_true, Option.toList_none,
        Option.toList_some, List.nil_append, List.count_append, List.count_cons, List.count_nil]
      omega
  | false =>
    simp only [addNewKeypair, NoiseKeypairs.slots, Bool.false_eq_true, if_false, Option.toList_none,
      Option.toList_some, List.append_nil, List.count_append, List.count_cons, List.count_nil]
    omega

theorem received_perm [DecidableEq κ] (received : κ) (keypairs : NoiseKeypairs κ) :
    ((wgNoiseReceivedWithKeypair received keypairs).2.1.slots ++
      (wgNoiseReceivedWithKeypair received keypairs).2.2).Perm keypairs.slots := by
  obtain ⟨current, previous, next⟩ := keypairs
  unfold wgNoiseReceivedWithKeypair
  split
  · simp
  · rename_i hnext
    have hnext : next = some received := not_not.mp hnext
    rw [List.perm_iff_count]
    intro k
    simp only [NoiseKeypairs.slots, hnext, Option.toList_none, Option.toList_some, List.nil_append,
      List.count_append]
    omega

end Slots

/-! ## Handshakes and receivers -/

/-- `enum noise_handshake_state`. -/
inductive HandshakeState where
  | zeroed
  | createdInitiation
  | consumedInitiation
  | createdResponse
  | consumedResponse
deriving Repr, DecidableEq

/-- A keypair object, as far as the slots look at it. -/
structure Keypair where
  internalId : Nat
  iAmTheInitiator : Bool
deriving Repr, DecidableEq

/-- The slots of a peer, the keypair objects, and the threads that have one in hand. -/
structure KeypairState where
  keypairs : NoiseKeypairs Keypair
  /-- `keypair_counter`. -/
  counter : Nat
  /-- Every object that has been in a slot. -/
  published : List Keypair
  refcount : Keypair → Nat
  /-- References that are held outside of the slots. -/
  readers : List Keypair
  /-- Receivers that have seen their keypair in the next slot and do not yet hold the lock. -/
  checked : List Keypair
  /-- The references of slots that have been put, the last one first. -/
  slotPuts : List Keypair
  /-- A reference was put that did not exist. -/
  overput : Bool

namespace KeypairState

def init : KeypairState where
  keypairs := .empty
  counter := 0
  published := []
  refcount := fun _ => 0
  readers := []
  checked := []
  slotPuts := []
  overput := false

/-- `kref_put`. -/
def krefPut (σ : KeypairState) (keypair : Keypair) : KeypairState :=
  if σ.refcount keypair = 0 then { σ with overput := true }
  else { σ with refcount := Function.update σ.refcount keypair (σ.refcount keypair - 1) }

/-- `wg_noise_keypair_put` of keypairs that a slot has given up. -/
def putSlots (σ : KeypairState) : List Keypair → KeypairState
  | [] => σ
  | keypair :: rest => putSlots { σ.krefPut keypair with slotPuts := keypair :: σ.slotPuts } rest

end KeypairState

inductive KeypairAction where
  /-- `wg_noise_handshake_begin_session`; whether the allocation succeeds, and whether the peer is
  dead. -/
  | beginSession (state : HandshakeState) (allocated isDead : Bool)
  /-- `wg_noise_keypair_get` by a receiver or sender. -/
  | get (keypair : Keypair)
  | put (keypair : Keypair)
  /-- The first look of `wg_noise_received_with_keypair`, without the lock. -/
  | receivedCheck (keypair : Keypair)
  | receivedLocked (keypair : Keypair)
  | clear
deriving Repr, DecidableEq

namespace KeypairState

/-- `kref_init` and `add_new_keypair` of a new object. -/
def publish (σ : KeypairState) (new : Keypair) : KeypairState :=
  let (keypairs, puts) := addNewKeypair new.iAmTheInitiator new σ.keypairs
  { σ with
    keypairs := keypairs
    published := new :: σ.published
    refcount := Function.update σ.refcount new 1 }.putSlots puts

def beginSession (σ : KeypairState) (state : HandshakeState) (allocated isDead : Bool) :
    KeypairState :=
  if state ≠ .createdResponse ∧ state ≠ .consumedResponse then σ
  else if !allocated then σ
  else
    let new : Keypair := ⟨σ.counter + 1, decide (state = .consumedResponse)⟩
    let σ := { σ with counter := σ.counter + 1 }
    -- The object of a dead peer is freed again, and nobody has seen it.
    if isDead then σ else σ.publish new

def step (σ : KeypairState) : KeypairAction → Option KeypairState
  | .beginSession state allocated isDead => some (σ.beginSession state allocated isDead)
  | .get keypair =>
      -- A pointer to a keypair may be older than its removal from the slots.
      if keypair ∈ σ.published ∧ σ.refcount keypair ≠ 0 then
        some { σ with
          refcount := Function.update σ.refcount keypair (σ.refcount keypair + 1)
          readers := keypair :: σ.readers }
      else none
  | .put keypair =>
      if σ.checked.count keypair < σ.readers.count keypair then
        some { σ.krefPut keypair with readers := σ.readers.erase keypair }
      else none
  | .receivedCheck keypair =>
      if σ.checked.count keypair < σ.readers.count keypair then
        if σ.keypairs.nextKeypair = some keypair then
          some { σ with checked := keypair :: σ.checked }
        else some σ
      else none
  | .receivedLocked keypair =>
      if keypair ∈ σ.checked then
        let (_, keypairs, puts) := wgNoiseReceivedWithKeypair keypair σ.keypairs
        some ({ σ with
          keypairs := keypairs
          checked := σ.checked.erase keypair }.putSlots puts)
      else none
  | .clear =>
      let (keypairs, puts) := wgNoiseKeypairsClear σ.keypairs
      some ({ σ with keypairs := keypairs }.putSlots puts)

end KeypairState

/-- The states of a peer's keypairs from its creation on. -/
def Reaches (as : List KeypairAction) (σ : KeypairState) : Prop :=
  Transition.run KeypairState.step KeypairState.init as = some σ

/-- The first packet with a keypair in the next slot is a confirmation. -/
def confirms (keypair : Keypair) (σ : KeypairState) (a : KeypairAction) : Prop :=
  a = .receivedLocked keypair ∧ σ.keypairs.nextKeypair = some keypair

/-- Some packet has confirmed the keypair. -/
def Confirmed (as : List KeypairAction) (keypair : Keypair) : Prop :=
  Transition.Happens KeypairState.step (confirms keypair) KeypairState.init as

/-! ## References -/

namespace KeypairState

theorem putSlots_fields (σ : KeypairState) (puts : List Keypair) :
    (σ.putSlots puts).keypairs = σ.keypairs ∧ (σ.putSlots puts).published = σ.published := by
  induction puts generalizing σ with
  | nil => exact ⟨rfl, rfl⟩
  | cons keypair rest ih =>
    obtain ⟨hkeypairs, hpublished⟩ :=
      ih { σ.krefPut keypair with slotPuts := keypair :: σ.slotPuts }
    rw [putSlots, hkeypairs, hpublished]
    unfold krefPut
    split <;> exact ⟨rfl, rfl⟩

/-- The objects that have been published are in the slots given, or were put once; a reference is
one of a slot or one of a reader. -/
structure Counted (slots : List Keypair) (σ : KeypairState) : Prop where
  conserved : (slots ++ σ.slotPuts).Perm σ.published
  distinct : σ.published.Nodup
  numbered : ∀ k ∈ σ.published, k.internalId ≤ σ.counter
  references : ∀ k, σ.refcount k = slots.count k + σ.readers.count k
  held : ∀ k ∈ σ.readers, k ∈ σ.published
  checked : ∀ k, σ.checked.count k ≤ σ.readers.count k
  exact : σ.overput = false

theorem counted_init : Counted [] init where
  conserved := .refl _
  distinct := .nil
  numbered := by intro k hk; cases hk
  references := fun _ => rfl
  held := by intro k hk; cases hk
  checked := fun _ => le_rfl
  exact := rfl

section References

variable {σ : KeypairState} {slots puts : List Keypair}

/-- Slots give up references that they have. -/
theorem putSlots_eq (σ : KeypairState) (puts : List Keypair)
    (h : ∀ k, puts.count k ≤ σ.refcount k) :
    σ.putSlots puts = { σ with
      refcount := fun k => σ.refcount k - puts.count k
      slotPuts := puts.reverse ++ σ.slotPuts } := by
  induction puts generalizing σ with
  | nil => simp [putSlots]
  | cons keypair rest ih =>
    have hpos : σ.refcount keypair ≠ 0 := by
      have := h keypair
      rw [List.count_cons_self] at this
      omega
    have hput : σ.krefPut keypair = { σ with
        refcount := Function.update σ.refcount keypair (σ.refcount keypair - 1) } := if_neg hpos
    have hrest (k : Keypair) : rest.count k ≤
        Function.update σ.refcount keypair (σ.refcount keypair - 1) k := by
      have := h k
      by_cases hk : k = keypair
      · subst hk
        rw [List.count_cons_self] at this
        rw [Function.update_self]
        omega
      · rw [List.count_cons_of_ne (Ne.symm hk)] at this
        rwa [Function.update_of_ne hk]
    rw [putSlots, hput, ih _ hrest]
    simp only [List.reverse_cons, List.append_assoc, List.singleton_append, mk.injEq, true_and,
      and_true]
    funext k
    by_cases hk : k = keypair
    · subst hk
      rw [Function.update_self, List.count_cons_self]
      omega
    · rw [Function.update_of_ne hk, List.count_cons_of_ne (Ne.symm hk)]

/-- An operation moves keypairs to other slots and puts the rest. -/
theorem Counted.put {keypairs : NoiseKeypairs Keypair} {checked : List Keypair}
    (h : Counted slots σ) (hperm : (keypairs.slots ++ puts).Perm slots)
    (hchecked : ∀ k, checked.count k ≤ σ.readers.count k) :
    Counted ({ σ with keypairs := keypairs, checked := checked }.putSlots puts).keypairs.slots
      ({ σ with keypairs := keypairs, checked := checked }.putSlots puts) := by
  have hcount (k : Keypair) : keypairs.slots.count k + puts.count k = slots.count k := by
    rw [← List.count_append]
    exact hperm.count_eq k
  have hle (k : Keypair) : puts.count k ≤ σ.refcount k := by
    have := h.references k
    have := hcount k
    omega
  rw [putSlots_eq { σ with keypairs := keypairs, checked := checked } puts hle]
  constructor
  case conserved =>
    have hmove : (keypairs.slots ++ (puts.reverse ++ σ.slotPuts)).Perm (slots ++ σ.slotPuts) := by
      rw [← List.append_assoc]
      exact ((puts.reverse_perm.append_left keypairs.slots).trans hperm).append_right σ.slotPuts
    exact hmove.trans h.conserved
  case distinct => exact h.distinct
  case numbered => exact h.numbered
  case references =>
    intro k
    have := h.references k
    have := hcount k
    show σ.refcount k - puts.count k = keypairs.slots.count k + σ.readers.count k
    omega
  case held => exact h.held
  case checked => exact hchecked
  case exact => exact h.exact

/-- A new object has the one reference that its slot will own. -/
theorem Counted.publish (h : Counted slots σ) {new : Keypair}
    (hnew : new.internalId = σ.counter + 1) :
    Counted (new :: slots) { σ with
      counter := σ.counter + 1
      published := new :: σ.published
      refcount := Function.update σ.refcount new 1 } := by
  have hfresh : new ∉ σ.published := by
    intro hmem
    have := h.numbered new hmem
    omega
  have hslots : slots.count new = 0 := by
    rw [List.count_eq_zero]
    exact fun hmem => hfresh (h.conserved.subset (List.mem_append_left _ hmem))
  constructor
  case conserved => exact h.conserved.cons new
  case distinct => exact List.nodup_cons.mpr ⟨hfresh, h.distinct⟩
  case numbered =>
    intro k hk
    rcases List.mem_cons.mp hk with rfl | hk
    · exact hnew.le
    · exact (h.numbered k hk).trans (Nat.le_succ _)
  case references =>
    intro k
    have hreferences := h.references k
    by_cases hk : k = new
    · subst hk
      have hreaders : σ.readers.count k = 0 := by
        rw [List.count_eq_zero]
        exact fun hmem => hfresh (h.held k hmem)
      simp only [Function.update_self, List.count_cons_self, hslots, hreaders]
    · simp only [Function.update_of_ne hk, List.count_cons_of_ne (Ne.symm hk)]
      exact hreferences
  case held => exact fun k hk => List.mem_cons_of_mem _ (h.held k hk)
  case checked => exact h.checked
  case exact => exact h.exact

/-- A reader takes a reference to an object that still has one. -/
theorem Counted.get (h : Counted slots σ) {keypair : Keypair} (hmem : keypair ∈ σ.published) :
    Counted slots { σ with
      refcount := Function.update σ.refcount keypair (σ.refcount keypair + 1)
      readers := keypair :: σ.readers } := by
  constructor
  case conserved => exact h.conserved
  case distinct => exact h.distinct
  case numbered => exact h.numbered
  case references =>
    intro k
    have hreferences := h.references k
    by_cases hk : k = keypair
    · subst hk
      simp only [Function.update_self, List.count_cons_self]
      omega
    · simp only [Function.update_of_ne hk, List.count_cons_of_ne (Ne.symm hk)]
      exact hreferences
  case held =>
    intro k hk
    rcases List.mem_cons.mp hk with rfl | hk
    · exact hmem
    · exact h.held k hk
  case checked =>
    intro k
    have := h.checked k
    simp only [List.count_cons]
    omega
  case exact => exact h.exact

/-- A reader gives its reference back. -/
theorem Counted.release (h : Counted slots σ) {keypair : Keypair}
    (hguard : σ.checked.count keypair < σ.readers.count keypair) :
    Counted slots { σ.krefPut keypair with readers := σ.readers.erase keypair } := by
  have hreferences := h.references keypair
  have hput : σ.krefPut keypair = { σ with
      refcount := Function.update σ.refcount keypair (σ.refcount keypair - 1) } :=
    if_neg (by omega)
  rw [hput]
  constructor
  case conserved => exact h.conserved
  case distinct => exact h.distinct
  case numbered => exact h.numbered
  case references =>
    intro k
    have hk' := h.references k
    by_cases hk : k = keypair
    · subst hk
      simp only [Function.update_self, List.count_erase_self]
      omega
    · simp only [Function.update_of_ne hk, List.count_erase_of_ne hk]
      exact hk'
  case held => exact fun k hk => h.held k (List.mem_of_mem_erase hk)
  case checked =>
    intro k
    have hk' := h.checked k
    by_cases hk : k = keypair
    · subst hk
      simp only [List.count_erase_self]
      omega
    · simp only [List.count_erase_of_ne hk]
      exact hk'
  case exact => exact h.exact

end References

end KeypairState

/-! ## The discipline -/

/-- What holds of the slots after a run. -/
structure Disciplined (as : List KeypairAction) (σ : KeypairState) : Prop where
  counted : KeypairState.Counted σ.keypairs.slots σ
  /-- A keypair is confirmed on its way from the next slot to the current one. -/
  confirmed : ∀ k, Confirmed as k → k ∈ σ.published ∧ σ.keypairs.nextKeypair ≠ some k
  next : ∀ k, σ.keypairs.nextKeypair = some k → k.iAmTheInitiator = false
  current : ∀ k, σ.keypairs.currentKeypair = some k → k.iAmTheInitiator = true ∨ Confirmed as k

theorem disciplined_init : Disciplined [] KeypairState.init where
  counted := KeypairState.counted_init
  confirmed := by intro k hk; cases hk
  next := by intro k hk; cases hk
  current := by intro k hk; cases hk

section Discipline

variable {as : List KeypairAction} {σ σ' : KeypairState} {a : KeypairAction}

theorem Disciplined.mem_published (h : Disciplined as σ) {k : Keypair}
    (hk : k ∈ σ.keypairs.slots) : k ∈ σ.published :=
  h.counted.conserved.subset (List.mem_append_left _ hk)

theorem confirmed_concat (hrun : Reaches as σ) (k : Keypair) :
    Confirmed (as ++ [a]) k ↔ Confirmed as k ∨ confirms k σ a :=
  Transition.happens_concat hrun

/-- A step that is no confirmation. -/
theorem Disciplined.other (h : Disciplined as σ) (hrun : Reaches as σ)
    (hother : ∀ k, ¬ confirms k σ a)
    (hcounted : KeypairState.Counted σ'.keypairs.slots σ')
    (hpublished : ∀ k ∈ σ.published, k ∈ σ'.published)
    (hnext : ∀ k, σ'.keypairs.nextKeypair = some k →
      σ.keypairs.nextKeypair = some k ∨ (k ∉ σ.published ∧ k.iAmTheInitiator = false))
    (hcurrent : ∀ k, σ'.keypairs.currentKeypair = some k →
      σ.keypairs.currentKeypair = some k ∨ k.iAmTheInitiator = true) :
    Disciplined (as ++ [a]) σ' := by
  have hconfirmed (k : Keypair) : Confirmed (as ++ [a]) k ↔ Confirmed as k := by
    rw [confirmed_concat hrun]
    exact or_iff_left (hother k)
  constructor
  case counted => exact hcounted
  case confirmed =>
    intro k hk
    obtain ⟨hmem, hnot⟩ := h.confirmed k ((hconfirmed k).mp hk)
    refine ⟨hpublished k hmem, fun hslot => ?_⟩
    rcases hnext k hslot with hold | ⟨hnew, -⟩
    · exact hnot hold
    · exact hnew hmem
  case next =>
    intro k hk
    rcases hnext k hk with hold | ⟨-, hrole⟩
    · exact h.next k hold
    · exact hrole
  case current =>
    intro k hk
    rcases hcurrent k hk with hold | hrole
    · exact (h.current k hold).imp_right (hconfirmed k).mpr
    · exact .inl hrole

/-- The new keypair is in no slot yet, and goes to the one its role says. -/
theorem Disciplined.publish (h : Disciplined as σ) (hrun : Reaches as σ)
    (hother : ∀ k, ¬ confirms k σ a) {new : Keypair} (hnumber : new.internalId = σ.counter + 1) :
    Disciplined (as ++ [a]) ({ σ with counter := σ.counter + 1 }.publish new) := by
  have hfresh : new ∉ σ.published := by
    intro hmem
    have := h.counted.numbered new hmem
    omega
  have hcounted := (h.counted.publish hnumber).put
    (addNewKeypair_perm new.iAmTheInitiator new σ.keypairs) h.counted.checked
  have hkeypairs : ({ σ with counter := σ.counter + 1 }.publish new).keypairs =
      (addNewKeypair new.iAmTheInitiator new σ.keypairs).1 := (KeypairState.putSlots_fields _ _).1
  have hpublished : ({ σ with counter := σ.counter + 1 }.publish new).published =
      new :: σ.published := (KeypairState.putSlots_fields _ _).2
  refine h.other hrun hother hcounted ?_ ?_ ?_
  · intro k hk
    rw [hpublished]
    exact List.mem_cons_of_mem _ hk
  · intro k hk
    rw [hkeypairs] at hk
    cases hrole : new.iAmTheInitiator with
    | true =>
      rw [hrole, addNewKeypair, if_pos rfl] at hk
      split at hk <;> cases hk
    | false =>
      rw [hrole] at hk
      cases hk
      exact .inr ⟨hfresh, hrole⟩
  · intro k hk
    rw [hkeypairs] at hk
    cases hrole : new.iAmTheInitiator with
    | true =>
      rw [hrole, addNewKeypair, if_pos rfl] at hk
      split at hk <;> cases hk <;> exact .inr hrole
    | false =>
      rw [hrole] at hk
      exact .inl hk

theorem Disciplined.begin (h : Disciplined as σ) (hrun : Reaches as σ) (state : HandshakeState)
    (allocated isDead : Bool) :
    Disciplined (as ++ [.beginSession state allocated isDead])
      (σ.beginSession state allocated isDead) := by
  have hother (k : Keypair) : ¬ confirms k σ (.beginSession state allocated isDead) := by
    rintro ⟨heq, -⟩
    cases heq
  have same : Disciplined (as ++ [.beginSession state allocated isDead]) σ :=
    h.other hrun hother h.counted (fun _ hk => hk) (fun _ hk => .inl hk) fun _ hk => .inl hk
  unfold KeypairState.beginSession
  split
  · exact same
  split
  · exact same
  simp only
  split
  · refine h.other hrun hother ?_ (fun _ hk => hk) (fun _ hk => .inl hk) fun _ hk => .inl hk
    exact { h.counted with numbered := fun k hk => (h.counted.numbered k hk).trans (Nat.le_succ _) }
  · exact h.publish hrun hother rfl

theorem Disciplined.received (h : Disciplined as σ) (hrun : Reaches as σ) (keypair : Keypair) :
    Disciplined (as ++ [.receivedLocked keypair])
      ({ σ with
        keypairs := (wgNoiseReceivedWithKeypair keypair σ.keypairs).2.1
        checked := σ.checked.erase keypair }.putSlots
          (wgNoiseReceivedWithKeypair keypair σ.keypairs).2.2) := by
  have hchecked (k : Keypair) : (σ.checked.erase keypair).count k ≤ σ.readers.count k :=
    (List.erase_sublist.count_le k).trans (h.counted.checked k)
  have hcounted := h.counted.put (received_perm keypair σ.keypairs) hchecked
  by_cases hnext : σ.keypairs.nextKeypair = some keypair
  · have hresult : wgNoiseReceivedWithKeypair keypair σ.keypairs =
        (true, ⟨some keypair, σ.keypairs.currentKeypair, none⟩,
          σ.keypairs.previousKeypair.toList) := if_neg (not_not.mpr hnext)
    have hconfirmed (k : Keypair) :
        Confirmed (as ++ [.receivedLocked keypair]) k ↔ Confirmed as k ∨ k = keypair := by
      rw [confirmed_concat hrun]
      refine or_congr_right ⟨?_, ?_⟩
      · rintro ⟨heq, -⟩
        cases heq
        rfl
      · rintro rfl
        exact ⟨rfl, hnext⟩
    constructor
    case counted => exact hcounted
    case confirmed =>
      intro k hk
      rw [(KeypairState.putSlots_fields _ _).1, (KeypairState.putSlots_fields _ _).2, hresult]
      refine ⟨?_, (fun h => by cases h)⟩
      rcases (hconfirmed k).mp hk with hk | rfl
      · exact (h.confirmed k hk).1
      · exact h.mem_published (by simp [NoiseKeypairs.slots, hnext])
    case next =>
      intro k hk
      rw [(KeypairState.putSlots_fields _ _).1, hresult] at hk
      cases hk
    case current =>
      intro k hk
      rw [(KeypairState.putSlots_fields _ _).1, hresult] at hk
      cases hk
      exact .inr ((hconfirmed keypair).mpr (.inr rfl))
  · have hresult : wgNoiseReceivedWithKeypair keypair σ.keypairs = (false, σ.keypairs, []) :=
      if_pos hnext
    rw [hresult] at hcounted ⊢
    refine h.other hrun ?_ hcounted (fun _ hk => hk) (fun _ hk => .inl hk) fun _ hk => .inl hk
    rintro k ⟨heq, hslot⟩
    cases heq
    exact hnext hslot

theorem step_disciplined (h : Disciplined as σ) (hrun : Reaches as σ)
    (hstep : σ.step a = some σ') : Disciplined (as ++ [a]) σ' := by
  cases a with
  | beginSession state allocated isDead =>
    cases hstep
    exact h.begin hrun state allocated isDead
  | get keypair =>
    simp only [KeypairState.step] at hstep
    split at hstep <;> rename_i hguard <;> cases hstep
    refine h.other hrun ?_ (h.counted.get hguard.1) (fun _ hk => hk) (fun _ hk => .inl hk)
      fun _ hk => .inl hk
    rintro k ⟨heq, -⟩
    cases heq
  | put keypair =>
    have hother (k : Keypair) : ¬ confirms k σ (.put keypair) := by
      rintro ⟨heq, -⟩
      cases heq
    have hsame : (σ.krefPut keypair).keypairs = σ.keypairs ∧
        (σ.krefPut keypair).published = σ.published := by
      unfold KeypairState.krefPut
      split <;> exact ⟨rfl, rfl⟩
    simp only [KeypairState.step] at hstep
    split at hstep <;> rename_i hguard <;> cases hstep
    have hcounted := h.counted.release hguard
    rw [← hsame.1] at hcounted
    refine h.other hrun hother hcounted ?_ ?_ ?_
    · exact fun k hk => hsame.2 ▸ hk
    · exact fun k hk => .inl (hsame.1 ▸ hk)
    · exact fun k hk => .inl (hsame.1 ▸ hk)
  | receivedCheck keypair =>
    have hother (k : Keypair) : ¬ confirms k σ (.receivedCheck keypair) := by
      rintro ⟨heq, -⟩
      cases heq
    simp only [KeypairState.step] at hstep
    split at hstep <;> rename_i hguard
    · split at hstep <;> cases hstep
      · refine h.other hrun hother ?_ (fun _ hk => hk) (fun _ hk => .inl hk) fun _ hk => .inl hk
        refine { h.counted with checked := fun k => ?_ }
        have := h.counted.checked k
        by_cases hk : k = keypair
        · subst hk
          simp only [List.count_cons_self]
          omega
        · simp only [List.count_cons_of_ne (Ne.symm hk)]
          exact this
      · exact h.other hrun hother h.counted (fun _ hk => hk) (fun _ hk => .inl hk)
          fun _ hk => .inl hk
    · cases hstep
  | receivedLocked keypair =>
    simp only [KeypairState.step] at hstep
    split at hstep <;> rename_i hguard <;> cases hstep
    exact h.received hrun keypair
  | clear =>
    cases hstep
    have hcounted := h.counted.put (clear_perm σ.keypairs) h.counted.checked
    refine h.other hrun ?_ hcounted ?_ ?_ ?_
    · rintro k ⟨heq, -⟩
      cases heq
    · intro k hk
      rw [(KeypairState.putSlots_fields _ _).2]
      exact hk
    · intro k hk
      rw [(KeypairState.putSlots_fields _ _).1] at hk
      cases hk
    · intro k hk
      rw [(KeypairState.putSlots_fields _ _).1] at hk
      cases hk

end Discipline

/-! ## Result -/

/-- After every run: no keypair is in two slots; the next slot has a keypair of a responder that
no packet has confirmed, and the current one a keypair of an initiator or one that a packet has
confirmed; a keypair in a slot has kept the slot's reference, and the slot's reference of every
other one has been put once. -/
theorem keypair_slot_discipline (as : List KeypairAction) (σ : KeypairState) (h : Reaches as σ) :
    (∀ k, σ.keypairs.previousKeypair = some k →
      σ.keypairs.currentKeypair ≠ some k ∧ σ.keypairs.nextKeypair ≠ some k) ∧
    (∀ k, σ.keypairs.currentKeypair = some k → σ.keypairs.nextKeypair ≠ some k) ∧
    (∀ k, σ.keypairs.nextKeypair = some k → k.iAmTheInitiator = false ∧ ¬ Confirmed as k) ∧
    (∀ k, σ.keypairs.currentKeypair = some k → k.iAmTheInitiator = true ∨ Confirmed as k) ∧
    (∀ k ∈ σ.published, k ∈ σ.keypairs.slots →
      σ.slotPuts.count k = 0 ∧ σ.refcount k = 1 + σ.readers.count k) ∧
    (∀ k ∈ σ.published, k ∉ σ.keypairs.slots →
      σ.slotPuts.count k = 1 ∧ σ.refcount k = σ.readers.count k) ∧
    σ.overput = false := by
  have hinv : Disciplined as σ := @Transition.run_history _ _ _ _ (fun _ _ => True) _ _ _
    (fun _ _ _ _ hrun hi _ hstep => step_disciplined hi hrun hstep) disciplined_init
    (Transition.meets_of_forall_mem (fun _ _ _ => trivial) _) h
  have hnodup : (σ.keypairs.slots ++ σ.slotPuts).Nodup :=
    hinv.counted.conserved.nodup_iff.mpr hinv.counted.distinct
  have hslots : σ.keypairs.slots.Nodup := hnodup.of_append_left
  have htotal (k : Keypair) (hk : k ∈ σ.published) :
      σ.keypairs.slots.count k + σ.slotPuts.count k = 1 := by
    rw [← List.count_append]
    exact List.count_eq_one_of_mem hnodup (hinv.counted.conserved.mem_iff.mpr hk)
  have hreferences := hinv.counted.references
  unfold NoiseKeypairs.slots at hslots
  refine ⟨?_, ?_, ?_, hinv.current, ?_, ?_, hinv.counted.exact⟩
  · intro k hk
    constructor <;> intro hother <;> simp [hk, hother, List.nodup_append] at hslots
  · intro k hk hother
    simp [hk, hother, List.nodup_append] at hslots
  · exact fun k hk => ⟨hinv.next k hk, fun hconfirmed => (hinv.confirmed k hconfirmed).2 hk⟩
  · intro k hk hin
    have hone : σ.keypairs.slots.count k = 1 :=
      List.count_eq_one_of_mem hnodup.of_append_left hin
    have := htotal k hk
    have := hreferences k
    omega
  · intro k hk hout
    have hzero : σ.keypairs.slots.count k = 0 := List.count_eq_zero.mpr hout
    have := htotal k hk
    have := hreferences k
    omega

/-- Both sides initiate: the responder's keypair is seen in the next slot, but moves to the
previous one before the receiver has the lock; it is put when another responder's keypair comes. -/
def simultaneousRun : List KeypairAction :=
  [.beginSession .createdResponse true false, .get ⟨1, false⟩, .receivedCheck ⟨1, false⟩,
    .beginSession .consumedResponse true false, .receivedLocked ⟨1, false⟩,
    .beginSession .createdResponse true false]

theorem keypair_slots_simultaneous : ∃ σ, Reaches simultaneousRun σ ∧
    σ.keypairs = ⟨some ⟨2, true⟩, none, some ⟨3, false⟩⟩ ∧
    σ.slotPuts.count ⟨1, false⟩ = 1 ∧ σ.refcount ⟨1, false⟩ = σ.readers.count ⟨1, false⟩ ∧
    ¬ Confirmed simultaneousRun ⟨3, false⟩ := by
  obtain ⟨σ, hrun, hcheck⟩ := Transition.exists_run_of_any (by decide +kernel :
    (Transition.run KeypairState.step KeypairState.init simultaneousRun).any (fun σ =>
      decide (σ.keypairs = ⟨some ⟨2, true⟩, none, some ⟨3, false⟩⟩) &&
        decide (⟨1, false⟩ ∈ σ.published)) = true)
  simp only [Bool.and_eq_true, decide_eq_true_eq] at hcheck
  obtain ⟨hkeypairs, hpublished⟩ := hcheck
  obtain ⟨-, -, hnext, -, -, hout, -⟩ := keypair_slot_discipline simultaneousRun σ hrun
  have hgone := hout ⟨1, false⟩ hpublished (by rw [hkeypairs]; decide)
  exact ⟨σ, hrun, hkeypairs, hgone.1, hgone.2, (hnext ⟨3, false⟩ (by rw [hkeypairs])).2⟩

end Noise

end WgTcp
