import WgTcp.Stream.Reader

/-!
# Promotion hands the socket over, not the parser

`wg_tcp_promote_authenticated_carrier` moves an accepted socket from its
provisional peer to the configured peer. Each peer reads the one byte stream
with a worker and a parser of its own; the configured peer starts with the
empty parser that releasing its old carrier left it, and the provisional
parser is freed with whatever it holds.

The interleavings are those of the promotion with both workers: the
provisional worker runs on after its peer was marked dead until it leaves its
loop, and bytes keep arriving while no callback is installed.
-/

namespace WgTcp

open FrameScan

/-- A peer's read worker with the parser fields it owns. -/
structure StreamWorker where
  parser : Parser
  scheduled : Bool
  pc : ReaderPc
  delivered : List Record
deriving Repr, DecidableEq

def StreamWorker.fresh : StreamWorker := ⟨Parser.empty, false, .idle, []⟩

/-- Progress of the promotion, by what it has published so far. -/
inductive PromotionPhase where
  /-- The socket belongs to the provisional peer. -/
  | provisional
  /-- The provisional peer is marked dead; its worker is being waited for. -/
  | claimed
  /-- The worker is cancelled and the callbacks are reset. -/
  | detached
  /-- The old carrier is released and the configured peer owns the socket. -/
  | published
  /-- The configured peer's callbacks are installed. -/
  | hooked
  /-- The configured stream is rearmed and the provisional peer is freed. -/
  | rearmed
deriving Repr, DecidableEq

structure HandoffState where
  phase : PromotionPhase
  receiveQueue : Bytes
  underWay : Bytes
  temp : StreamWorker
  conf : StreamWorker
deriving Repr, DecidableEq

/-- An accepted stream of which nothing has arrived; `conf` serves another carrier, if any. -/
def HandoffState.init (stream : Bytes) (conf : Parser) : HandoffState :=
  ⟨.provisional, [], stream, .fresh, { StreamWorker.fresh with parser := conf }⟩

/-- One worker together with the socket it reads. -/
def StreamWorker.view (w : StreamWorker) (s : HandoffState) : ReaderState :=
  ⟨w.parser, s.receiveQueue, s.underWay, w.scheduled, w.pc, w.delivered⟩

def StreamWorker.ofView (v : ReaderState) : StreamWorker :=
  ⟨v.parser, v.scheduled, v.pc, v.delivered⟩

def HandoffState.setTemp (s : HandoffState) (v : ReaderState) : HandoffState :=
  { s with receiveQueue := v.receiveQueue, underWay := v.underWay, temp := .ofView v }

def HandoffState.setConf (s : HandoffState) (v : ReaderState) : HandoffState :=
  { s with receiveQueue := v.receiveQueue, underWay := v.underWay, conf := .ofView v }

inductive HandoffAction where
  | arrive (n : Nat)
  | temp (a : ReaderAction)
  | conf (a : ReaderAction)
  /-- The configured peer's reader works on the carrier it had before. -/
  | oldCarrier (p : Parser)
  | claim
  | detach
  | publish
  | hook
  | rearm
deriving Repr, DecidableEq

/-- The provisional worker once its peer is dead: a run in progress goes on, a queued run finds
no socket, and neither is queued again. -/
def deadWorkerStep (A : SkbAllocator) (v : ReaderState) : ReaderAction → Option ReaderState
  | .arrive _ => none
  | .start =>
      if v.pc = .idle ∧ v.scheduled then some { v with scheduled := false } else none
  | .pass choice => readerStep A v (.pass choice)
  | .finish =>
      match v.pc with
      | .leaving _ => some { v with pc := .idle, scheduled := false }
      | _ => none

/-- Bytes that arrive while `data_ready` is not installed or finds a dead peer. -/
def arriveSilently (s : HandoffState) (n : Nat) : Option HandoffState :=
  if 0 < n ∧ n ≤ s.underWay.length then
    some { s with
      receiveQueue := s.receiveQueue ++ s.underWay.take n
      underWay := s.underWay.drop n }
  else none

def handoffStep (A : SkbAllocator) (s : HandoffState) : HandoffAction → Option HandoffState
  | .arrive n =>
      match s.phase with
      | .provisional => (readerStep A (s.temp.view s) (.arrive n)).map s.setTemp
      | .claimed | .detached | .published => arriveSilently s n
      | .hooked | .rearmed => (readerStep A (s.conf.view s) (.arrive n)).map s.setConf
  | .temp a =>
      match s.phase, a with
      | _, .arrive _ => none
      | .provisional, a => (readerStep A (s.temp.view s) a).map s.setTemp
      | .claimed, a => (deadWorkerStep A (s.temp.view s) a).map s.setTemp
      | _, _ => none
  | .conf a =>
      match s.phase, a with
      | _, .arrive _ => none
      | .hooked, a | .rearmed, a => (readerStep A (s.conf.view s) a).map s.setConf
      | _, _ => none
  | .oldCarrier p =>
      match s.phase with
      | .provisional | .claimed | .detached => some { s with conf := { s.conf with parser := p } }
      | _ => none
  | .claim => if s.phase = .provisional then some { s with phase := .claimed } else none
  | .detach =>
      -- `cancel_work_sync` returns once the worker is not running.
      if s.phase = .claimed ∧ s.temp.pc = .idle then
        some { s with phase := .detached, temp := { s.temp with scheduled := false } }
      else none
  | .publish =>
      if s.phase = .detached then some { s with phase := .published, conf := .fresh } else none
  | .hook => if s.phase = .published then some { s with phase := .hooked } else none
  | .rearm =>
      if s.phase = .hooked then
        some { s with
          phase := .rearmed
          conf := { s.conf with scheduled := s.conf.scheduled || !s.receiveQueue.isEmpty } }
      else none

/-- The promotion is over, all bytes have arrived and the configured worker has nothing to do. -/
structure HandoffState.AtRest (s : HandoffState) : Prop where
  rearmed : s.phase = .rearmed
  conf : (s.conf.view s).AtRest

/-- Deliveries of the provisional reader, then those of the configured peer's reader. -/
def HandoffState.delivered (s : HandoffState) : List Record := s.temp.delivered ++ s.conf.delivered

/-! ## What the handoff keeps -/

/-- Whether the configured peer owns the socket. -/
def PromotionPhase.handedOver : PromotionPhase → Bool
  | .provisional | .claimed | .detached => false
  | .published | .hooked | .rearmed => true

/-- The buffer that the promotion frees could not have taken part in a record. -/
def InertHandoff (s : HandoffState) (a : HandoffAction) : Prop :=
  a = .publish → wireFormat.Inert s.temp.parser.bytes

/-- After the handoff: `out` was delivered before it, `lost` was freed and `rest` was still to be
read, of which the configured worker has processed a part. -/
structure HandedOver (stream : Bytes) (s : HandoffState) (out : List Bytes) (lost rest : Bytes) :
    Prop where
  temp : s.temp.delivered = out.map Record.ofFrame
  advances : wireFormat.Advances stream out (lost ++ rest)
  inert : wireFormat.Inert lost
  conf : StreamInv rest (s.conf.view s)
  quiet : (s.conf.view s).Quiet
  drained : s.phase = .rearmed → (s.conf.view s).Drained

structure HandoffInv (stream : Bytes) (s : HandoffState) : Prop where
  before : s.phase.handedOver = false → StreamInv stream (s.temp.view s) ∧ s.conf.delivered = []
  after : s.phase.handedOver = true → ∃ out lost rest, HandedOver stream s out lost rest

theorem handoffInv_init (stream : Bytes) (conf : Parser) :
    HandoffInv stream (HandoffState.init stream conf) where
  before _ := ⟨StreamInv.start stream rfl rfl rfl, rfl⟩
  after h := by cases h

theorem deadWorkerStep_stream {A : SkbAllocator} {stream : Bytes} {v w : ReaderState}
    {a : ReaderAction} (hinv : StreamInv stream v) (h : deadWorkerStep A v a = some w) :
    StreamInv stream w := by
  cases a with
  | arrive n => cases h
  | start =>
    simp only [deadWorkerStep] at h
    split at h <;> cases h
    exact ⟨hinv.ok, hinv.advances⟩
  | pass choice =>
    simp only [deadWorkerStep] at h
    exact readerStep_stream hinv h
  | finish =>
    simp only [deadWorkerStep] at h
    split at h <;> cases h
    exact ⟨hinv.ok, hinv.advances⟩

theorem arriveSilently_stream (stream : Bytes) (w : StreamWorker) {s t : HandoffState} {n : Nat}
    (h : arriveSilently s n = some t) (hinv : StreamInv stream (w.view s)) :
    StreamInv stream (w.view t) := by
  unfold arriveSilently at h
  split at h <;> cases h
  obtain ⟨hok, out, hout, hadv⟩ := hinv
  exact ⟨hok, out, hout, by simpa [StreamWorker.view] using hadv⟩

/-- A step of the configured worker after the handoff. -/
theorem HandedOver.conf_step {A : SkbAllocator} {stream : Bytes} {s : HandoffState}
    {out : List Bytes} {lost rest : Bytes} {a : ReaderAction} {v : ReaderState}
    (h : HandedOver stream s out lost rest) (hstep : readerStep A (s.conf.view s) a = some v) :
    HandedOver stream (s.setConf v) out lost rest where
  temp := h.temp
  advances := h.advances
  inert := h.inert
  conf := readerStep_stream h.conf hstep
  quiet := readerStep_quiet h.conf.ok h.quiet hstep
  drained _ := readerStep_drained hstep

section Step

variable {A : SkbAllocator} {stream : Bytes} {s t : HandoffState}

/-- Steps of the provisional worker, live or dead, happen before the handoff. -/
theorem HandoffInv.setTemp {v : ReaderState} (hinv : HandoffInv stream s)
    (hphase : s.phase.handedOver = false) (hv : StreamInv stream v) :
    HandoffInv stream (s.setTemp v) where
  before _ := ⟨hv, (hinv.before hphase).2⟩
  after h := by
    have hsame : (s.setTemp v).phase = s.phase := rfl
    rw [hsame, hphase] at h
    cases h

theorem HandoffInv.setConf {a : ReaderAction} {v : ReaderState} (hinv : HandoffInv stream s)
    (hphase : s.phase.handedOver = true) (hstep : readerStep A (s.conf.view s) a = some v) :
    HandoffInv stream (s.setConf v) where
  before h := by
    have hsame : (s.setConf v).phase = s.phase := rfl
    rw [hsame, hphase] at h
    cases h
  after _ := by
    obtain ⟨out, lost, rest, hover⟩ := hinv.after hphase
    exact ⟨out, lost, rest, hover.conf_step hstep⟩

theorem HandoffInv.arriveSilently {n : Nat} (hinv : HandoffInv stream s)
    (hphase : s.phase ≠ .rearmed) (h : arriveSilently s n = some t) : HandoffInv stream t := by
  have hbefore := arriveSilently_stream stream s.temp h
  have hafter := fun rest => arriveSilently_stream rest s.conf h
  unfold WgTcp.arriveSilently at h
  split at h <;> cases h
  constructor
  · intro hp
    obtain ⟨htemp, hconf⟩ := hinv.before hp
    exact ⟨hbefore htemp, hconf⟩
  · intro hp
    obtain ⟨out, lost, rest, hover⟩ := hinv.after hp
    exact ⟨out, lost, rest, hover.temp, hover.advances, hover.inert, hafter rest hover.conf,
      hover.quiet, fun h => absurd h hphase⟩

theorem handoffStep_inv {a : HandoffAction} (hinv : HandoffInv stream s)
    (hsafe : InertHandoff s a) (h : handoffStep A s a = some t) : HandoffInv stream t := by
  cases a with
  | arrive n =>
    simp only [handoffStep] at h
    cases hp : s.phase <;> simp only [hp] at h
    case provisional =>
      obtain ⟨v, hv, rfl⟩ := Option.map_eq_some_iff.mp h
      have hphase : s.phase.handedOver = false := by rw [hp]; rfl
      exact hinv.setTemp hphase (readerStep_stream (hinv.before hphase).1 hv)
    case claimed => exact hinv.arriveSilently (by simp [hp]) h
    case detached => exact hinv.arriveSilently (by simp [hp]) h
    case published => exact hinv.arriveSilently (by simp [hp]) h
    case hooked =>
      obtain ⟨v, hv, rfl⟩ := Option.map_eq_some_iff.mp h
      exact hinv.setConf (by rw [hp]; rfl) hv
    case rearmed =>
      obtain ⟨v, hv, rfl⟩ := Option.map_eq_some_iff.mp h
      exact hinv.setConf (by rw [hp]; rfl) hv
  | temp a =>
    cases hp : s.phase
    case provisional =>
      have hphase : s.phase.handedOver = false := by rw [hp]; rfl
      cases a <;> simp only [handoffStep, hp, reduceCtorEq] at h <;>
        obtain ⟨v, hv, rfl⟩ := Option.map_eq_some_iff.mp h <;>
        exact hinv.setTemp hphase (readerStep_stream (hinv.before hphase).1 hv)
    case claimed =>
      have hphase : s.phase.handedOver = false := by rw [hp]; rfl
      cases a <;> simp only [handoffStep, hp, reduceCtorEq] at h <;>
        obtain ⟨v, hv, rfl⟩ := Option.map_eq_some_iff.mp h <;>
        exact hinv.setTemp hphase (deadWorkerStep_stream (hinv.before hphase).1 hv)
    all_goals cases a <;> simp [handoffStep, hp] at h
  | conf a =>
    cases hp : s.phase
    case hooked =>
      cases a <;> simp only [handoffStep, hp, reduceCtorEq] at h <;>
        obtain ⟨v, hv, rfl⟩ := Option.map_eq_some_iff.mp h <;>
        exact hinv.setConf (by rw [hp]; rfl) hv
    case rearmed =>
      cases a <;> simp only [handoffStep, hp, reduceCtorEq] at h <;>
        obtain ⟨v, hv, rfl⟩ := Option.map_eq_some_iff.mp h <;>
        exact hinv.setConf (by rw [hp]; rfl) hv
    all_goals cases a <;> simp [handoffStep, hp] at h
  | oldCarrier p =>
    simp only [handoffStep] at h
    cases hp : s.phase <;> simp only [hp] at h <;> cases h
    all_goals
      refine ⟨fun _ => hinv.before (by rw [hp]; rfl), fun h => ?_⟩
      simp [PromotionPhase.handedOver] at h
  | claim =>
    simp only [handoffStep] at h
    split at h <;> cases h
    rename_i hp
    exact ⟨fun _ => hinv.before (by rw [hp]; rfl), fun h => by cases h⟩
  | detach =>
    simp only [handoffStep] at h
    split at h <;> cases h
    rename_i hp
    obtain ⟨⟨hok, hadv⟩, hconf⟩ := hinv.before (by rw [hp.1]; rfl)
    exact ⟨fun _ => ⟨⟨hok, hadv⟩, hconf⟩, fun h => by cases h⟩
  | publish =>
    simp only [handoffStep] at h
    split at h <;> cases h
    rename_i hp
    obtain ⟨⟨-, out, hout, hadv⟩, -⟩ := hinv.before (by rw [hp]; rfl)
    refine ⟨fun h => (by cases h), fun _ => ?_⟩
    refine ⟨out, s.temp.parser.bytes, s.receiveQueue ++ s.underWay, hout, ?_, hsafe rfl,
      StreamInv.start _ rfl rfl rfl, fun _ => Parser.settled_empty, fun h => by cases h⟩
    simpa only [StreamWorker.view, List.append_assoc] using hadv
  | hook =>
    simp only [handoffStep] at h
    split at h <;> cases h
    rename_i hp
    obtain ⟨out, lost, rest, hover⟩ := hinv.after (by rw [hp]; rfl)
    refine ⟨fun h => (by cases h), fun _ => ⟨out, lost, rest, ?_⟩⟩
    exact ⟨hover.temp, hover.advances, hover.inert, hover.conf, hover.quiet, fun h => by cases h⟩
  | rearm =>
    simp only [handoffStep] at h
    split at h <;> cases h
    rename_i hp
    obtain ⟨out, lost, rest, hover⟩ := hinv.after (by rw [hp]; rfl)
    refine ⟨fun h => (by cases h), fun _ => ⟨out, lost, rest, ?_⟩⟩
    refine ⟨hover.temp, hover.advances, hover.inert, ⟨hover.conf.ok, hover.conf.advances⟩, ?_, ?_⟩
    · have hquiet := hover.quiet
      simp only [ReaderState.Quiet, StreamWorker.view] at hquiet ⊢
      cases hpc : s.conf.pc <;> simp_all
    · intro _ _ hsched
      simp only [StreamWorker.view, Bool.or_eq_false_iff] at hsched
      simpa [StreamWorker.view] using hsched.2

end Step

/-! ## Records are lost exactly with a buffer that can begin one -/

theorem HandoffInv.delivered_eq {stream : Bytes} {s : HandoffState} (hinv : HandoffInv stream s)
    (hrest : s.AtRest) : s.delivered = (decodeStream stream).records := by
  obtain ⟨out, lost, rest, hover⟩ := hinv.after (by rw [hrest.rearmed]; rfl)
  have hreader : ReaderInv rest (s.conf.view s) :=
    ⟨hover.conf, hover.quiet, hover.drained hrest.rearmed⟩
  have hconf := congrArg Decoded.records (hreader.result_eq hrest.conf)
  have hscan : (wireFormat.scan stream).records = out ++ (wireFormat.scan rest).records := by
    rw [hover.advances.scan_eq, Parse.after_records, hover.inert.neutral rest]
  simp only [ReaderState.result, StreamWorker.view, decodeStream] at hconf
  rw [HandoffState.delivered, hover.temp, hconf, decodeStream, hscan, List.map_append]

theorem HandoffInv.delivered_prefix {stream : Bytes} {s : HandoffState}
    (hinv : HandoffInv stream s) : s.delivered <+: (decodeStream stream).records := by
  cases hphase : s.phase.handedOver with
  | false =>
    obtain ⟨⟨-, out, hout, hadv⟩, hconf⟩ := hinv.before hphase
    have hout' : s.temp.delivered = out.map Record.ofFrame := hout
    rw [HandoffState.delivered, hconf, hout', decodeStream, hadv.scan_eq]
    simp
  | true =>
    obtain ⟨out, lost, rest, hover⟩ := hinv.after hphase
    obtain ⟨-, more, hmore, hadv⟩ := hover.conf
    have hmore' : s.conf.delivered = more.map Record.ofFrame := hmore
    have hscan : (wireFormat.scan stream).records = out ++ (wireFormat.scan rest).records := by
      rw [hover.advances.scan_eq, Parse.after_records, hover.inert.neutral rest]
    rw [HandoffState.delivered, hover.temp, hmore', decodeStream, hscan, hadv.scan_eq]
    simp

theorem length_payload_ofFrame (raw : Bytes) :
    (Record.ofFrame raw).payload.length =
      raw.length - headerLen (hasFragHeader (EncapHeader.ofBytes raw).flags) := by
  simp [Record.ofFrame]

theorem fragInfo_ofBytes_replicate {k : Nat} (h : 4 ≤ k) :
    FragInfo.ofBytes (List.replicate k 255) = ⟨65535, 65535⟩ := by
  rw [← FragInfo.ofBytes_take _ (Nat.le_refl 4), List.take_replicate, Nat.min_eq_left h]
  decide

/-- The header begun by `t` is completed as in `z`, and the rest of its record is filled with a
byte that is no part of a header. -/
def continuation (t z : Bytes) (n : Nat) : Bytes :=
  z.take (8 - t.length) ++ List.replicate (n - max t.length 8) 255

section Continuation

variable {t z : Bytes} {n : Nat}

theorem length_continuation (hlen : 8 ≤ (t ++ z).length) :
    (continuation t z n).length = 8 - t.length + (n - max t.length 8) := by
  simp only [List.length_append] at hlen
  simp only [continuation, List.length_append, List.length_take, List.length_replicate]
  omega

theorem header_continuation (h : wireFormat.header (t ++ z) = some n) :
    wireFormat.header (t ++ continuation t z n) = some n := by
  have hlen := wireFormat.width_le_length_of_header h
  rw [wireFormat_width] at hlen
  have hlen' := length_continuation (n := n) hlen
  have hwindow : (t ++ continuation t z n).take 8 = (t ++ z).take 8 := by
    simp only [List.length_append] at hlen
    rw [List.take_append, List.take_append, continuation,
      List.take_append_of_le_length (by simp; omega), List.take_take, Nat.min_self]
  have hlong : 8 ≤ (t ++ continuation t z n).length := by
    rw [List.length_append]
    omega
  rw [wireFormat.header_congr hlong hlen hwindow, h]

/-- The bytes behind `t` do not hold the record that begins in `t`. -/
theorem record_not_in_continuation (ht : t ≠ []) (h : wireFormat.header (t ++ z) = some n) :
    Record.ofFrame ((t ++ continuation t z n).take n) ∉
      (wireFormat.scan (continuation t z n)).records.map Record.ofFrame := by
  have hpos := List.length_pos_iff.mpr ht
  have hlen := wireFormat.width_le_length_of_header h
  rw [wireFormat_width] at hlen
  have hlen' := length_continuation (n := n) hlen
  have hheader := header_continuation h
  obtain ⟨hvalid, heq⟩ := wireFormat_header_eq_some.mp hheader
  obtain ⟨-, -, -, -, hmin, -⟩ := wgCheckPotentialHeaderValidity_iff.mp hvalid
  have hbounds := headerLen_bounds
    (hasFragHeader (EncapHeader.ofBytes (t ++ continuation t z n)).flags)
  simp only [minimumLen, messageMinimumLength, heq] at hmin
  intro hmem
  obtain ⟨raw, hraw, hrecord⟩ := List.mem_map.mp hmem
  have hle := Format.length_le_of_mem_records hraw
  have hpayload := congrArg (fun r => r.payload.length) hrecord
  simp only [length_payload_ofFrame, ofBytes_take _ (show 8 ≤ n by omega), List.length_take,
    List.length_append] at hpayload
  -- Equal payload lengths leave only a fragment in front of an unfragmented record.
  have hfrag : hasFragHeader (EncapHeader.ofBytes (t ++ continuation t z n)).flags = true ∧
      hasFragHeader (EncapHeader.ofBytes raw).flags = false ∧ t.length ≤ 4 := by
    have h8 : headerLen false = 8 := rfl
    have h12 : headerLen true = 12 := rfl
    cases hf : hasFragHeader (EncapHeader.ofBytes (t ++ continuation t z n)).flags <;>
      cases hg : hasFragHeader (EncapHeader.ofBytes raw).flags <;>
      simp only [hf, hg, h8, h12] at hpayload hmin <;>
      simp <;> omega
  obtain ⟨htrue, hfalse, hshort⟩ := hfrag
  have hinfo := congrArg Record.frag hrecord
  have hbody : ((t ++ continuation t z n).take n).drop 8 = List.replicate (n - 8) 255 := by
    simp only [List.length_append] at hlen
    rw [List.drop_take, continuation, ← List.append_assoc,
      List.drop_left' (by simp; omega), Nat.max_eq_right (by omega), List.take_replicate,
      Nat.min_self]
  simp only [Record.ofFrame, ofBytes_take _ (show 8 ≤ n by omega), htrue, hfalse, if_true,
    Bool.false_eq_true, if_false] at hinfo
  rw [show wgTcpEncapHdrLen = 8 from rfl, hbody, fragInfo_ofBytes_replicate (by omega)] at hinfo
  exact absurd hinfo (by decide)

end Continuation

/-- Freeing `lost` in front of any remaining stream loses no record exactly when no suffix of it
can begin a header. -/
theorem decodeStream_drop_iff (lost : Bytes) :
    (∀ rest, (decodeStream (lost ++ rest)).records = (decodeStream rest).records) ↔
      wireFormat.Inert lost := by
  constructor
  · intro hall i
    induction i using Nat.strongRecOn with
    | ind i ih =>
      intro hi z
      by_contra hsome
      obtain ⟨n, hheader⟩ := Option.ne_none_iff_exists'.mp hsome
      have hne : lost.drop i ≠ [] := by
        rw [ne_eq, List.drop_eq_nil_iff]
        omega
      have hlen := wireFormat.width_le_length_of_header hheader
      have hlen' := length_continuation (n := n) hlen
      have hscan := Format.scan_of_first_header (Nat.le_of_lt hi)
        (fun j hj => ih j hj (by omega) _) (header_continuation hheader)
        (by rw [List.length_append, hlen']; omega)
      have heq := hall (continuation (lost.drop i) z n)
      have hnot := record_not_in_continuation hne hheader
      simp only [decodeStream, hscan, Parse.after_records] at heq
      rw [← heq] at hnot
      simp at hnot
  · intro hinert rest
    rw [decodeStream, decodeStream, hinert.neutral rest]

/-! ## The handoff over whole runs -/

/-- A promotion that frees only bytes in which no header can begin loses no record: at every point
the deliveries are a prefix of the decoded stream, and at rest they are all of it. -/
theorem promotion_keeps_records (A : SkbAllocator) (stream : Bytes) (conf : Parser)
    (as : List HandoffAction) (s : HandoffState)
    (hrun : Transition.run (handoffStep A) (.init stream conf) as = some s)
    (hinert : Transition.Meets (handoffStep A) InertHandoff (.init stream conf) as) :
    s.delivered <+: (decodeStream stream).records ∧
      (s.AtRest → s.delivered = (decodeStream stream).records) := by
  have hinv : HandoffInv stream s :=
    Transition.run_invariant_of_meets (fun _ _ _ => handoffStep_inv)
      (handoffInv_init stream conf) hinert hrun
  exact ⟨hinv.delivered_prefix, hinv.delivered_eq⟩

/-- A record of forty bytes. -/
def sampleRecord : Record := ⟨List.replicate 32 1, FragInfo.none⟩

/-- Handed over before its first byte arrives, the record reaches the configured peer. -/
def earlyHandoff : List HandoffAction :=
  [.claim, .detach, .publish, .hook, .rearm, .arrive 40, .conf .start, .conf (.pass (.take 39)),
    .conf (.pass .again), .conf .finish]

/-- Handed over when half of it has been read, the record is gone. -/
def midRecordHandoff : List HandoffAction :=
  [.arrive 20, .temp .start, .temp (.pass (.take 19)), .temp (.pass .again), .temp .finish,
    .claim, .detach, .publish, .hook, .rearm, .arrive 20, .conf .start, .conf (.pass (.take 19)),
    .conf .finish]

def HandoffState.atRest (s : HandoffState) : Bool :=
  s.phase == .rearmed && s.underWay.isEmpty && s.conf.pc == .idle && !s.conf.scheduled

theorem HandoffState.atRest_iff {s : HandoffState} : s.atRest = true ↔ s.AtRest := by
  simp only [HandoffState.atRest, Bool.and_eq_true, beq_iff_eq, List.isEmpty_iff,
    Bool.not_eq_eq_eq_not, Bool.not_true]
  constructor
  · rintro ⟨⟨⟨hphase, hway⟩, hpc⟩, hsched⟩
    exact ⟨hphase, ⟨hway, hpc, hsched⟩⟩
  · rintro ⟨hphase, hway, hpc, hsched⟩
    exact ⟨⟨⟨hphase, hway⟩, hpc⟩, hsched⟩

theorem promotion_keeps_records_early :
    ∃ s, Transition.run (handoffStep exactAllocator) (.init sampleRecord.frame Parser.empty)
        earlyHandoff = some s ∧ s.delivered = (decodeStream sampleRecord.frame).records := by
  have hrun : (Transition.run (handoffStep exactAllocator)
      (.init sampleRecord.frame Parser.empty) earlyHandoff).any HandoffState.atRest = true := by
    decide +kernel
  obtain ⟨s, hs, hrest⟩ := Transition.exists_run_of_any hrun
  refine ⟨s, hs, (promotion_keeps_records _ _ _ _ s hs ?_).2 (HandoffState.atRest_iff.mp hrest)⟩
  -- Only the third action is constrained, and the provisional buffer is empty by then.
  refine ⟨fun h => (by cases h), fun t ht => ⟨fun h => (by cases h), fun u hu => ⟨fun _ => ?_, ?_⟩⟩⟩
  · cases ht
    cases hu
    intro i hi
    cases hi
  · intro v _
    apply Transition.meets_of_forall_mem
    intro _ a ha h
    subst h
    simp at ha

/-- The claimed transfer of the parser fails: at rest, the only record of the stream is lost. -/
theorem promotion_loses_record :
    ∃ s, Transition.run (handoffStep exactAllocator) (.init sampleRecord.frame Parser.empty)
        midRecordHandoff = some s ∧ s.AtRest ∧ s.delivered = [] ∧
      (decodeStream sampleRecord.frame).records = [sampleRecord] := by
  have hrun : (Transition.run (handoffStep exactAllocator)
      (.init sampleRecord.frame Parser.empty) midRecordHandoff).any
        (fun s => s.atRest && s.delivered == []) = true := by
    decide +kernel
  obtain ⟨s, hs, hcheck⟩ := Transition.exists_run_of_any hrun
  simp only [Bool.and_eq_true, beq_iff_eq] at hcheck
  exact ⟨s, hs, HandoffState.atRest_iff.mp hcheck.1, hcheck.2, by decide +kernel⟩

end WgTcp
