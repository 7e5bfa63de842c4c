import WgTcp.Wire.Frame

/-!
# The stream parser of a peer

One pass of the `while (true)` loop of `wg_tcp_read_worker`, over the parser
fields of a peer: `partial_skb`, `expected_len` and `received_len`. Socket
buffers are linear; the allocator may round a request up, and every allocation
of a pass has an outcome of its own.
-/

namespace WgTcp

/-! ## Linear socket buffers -/

structure Skb where
  headroom : Nat
  data : Bytes
  tailroom : Nat
deriving Repr, DecidableEq

/-- Usable size of a linear buffer for each request, and the platform's `NET_IP_ALIGN`. -/
structure SkbAllocator where
  capacity : Nat → Nat
  le_capacity : ∀ n, n ≤ capacity n
  netIpAlign : Nat

/-- An allocator that never rounds up, on a platform without `NET_IP_ALIGN`. -/
def exactAllocator : SkbAllocator := ⟨id, fun _ => Nat.le_refl _, 0⟩

abbrev wgTcpSkbReadAllocSize : Nat := 8192 * 3
abbrev wgTcpReservedHeaderSize : Nat := 128

namespace Skb

/-- `alloc_skb` followed by `skb_reserve`. -/
def alloc (A : SkbAllocator) (size reserve : Nat) : Skb :=
  ⟨reserve, [], A.capacity size - reserve⟩

def put (skb : Skb) (bytes : Bytes) : Skb :=
  { skb with data := skb.data ++ bytes, tailroom := skb.tailroom - bytes.length }

def pull (skb : Skb) (n : Nat) : Skb :=
  { skb with headroom := skb.headroom + n, data := skb.data.drop n }

/-- `memmove` of the last `n` bytes to the front, then `skb_trim`. -/
def keepSuffix (skb : Skb) (n : Nat) : Skb :=
  { skb with
    data := skb.data.drop (skb.data.length - n)
    tailroom := skb.tailroom + (skb.data.length - n) }

def copyExpand (A : SkbAllocator) (skb : Skb) (newHeadroom newTailroom : Nat) : Skb :=
  { headroom := newHeadroom
    data := skb.data
    tailroom := A.capacity (newHeadroom + skb.data.length + newTailroom) -
      (newHeadroom + skb.data.length) }

end Skb

/-! ## Parser state -/

structure Parser where
  partialSkb : Option Skb
  expectedLen : Nat
  receivedLen : Nat
deriving Repr, DecidableEq

/-- The parser state while `partial_skb` is set. -/
structure Buffer where
  skb : Skb
  expectedLen : Nat
  receivedLen : Nat
deriving Repr, DecidableEq

/-- `wg_peer_discard_partial_read`, and the state of a new peer. -/
def Parser.empty : Parser := ⟨none, 0, 0⟩

def Buffer.toParser (b : Buffer) : Parser := ⟨some b.skb, b.expectedLen, b.receivedLen⟩

/-- Outcomes of the fallible calls of one pass: the allocation of `partial_skb`, the two
`skb_copy_expand` calls, the leftover buffer, and the synthetic headers. -/
structure ReadOutcome where
  partialAlloc : Bool
  headerExpand : Bool
  recordExpand : Bool
  leftoverAlloc : Bool
  fakeHeaders : Bool
deriving Repr, DecidableEq

def ReadOutcome.ok : ReadOutcome := ⟨true, true, true, true, true⟩

/-- What `kernel_recvmsg` returned. -/
inductive RecvResult where
  | data (bytes : Bytes)
  | eagain
  | closed
  | error
deriving Repr, DecidableEq

/-- Zero or an error other than `EAGAIN`. -/
def RecvResult.terminal : RecvResult → Bool
  | .data _ => false
  | .eagain => false
  | .closed => true
  | .error => true

/-! ## Resynchronisation -/

/-- Offsets `i, i + 1, …` tried by `wg_sync_header`, one per unit of fuel. -/
def syncFrom (data : Bytes) (receivedLen : Nat) : Nat → Nat → Option Nat
  | 0, _ => none
  | fuel + 1, i =>
      if wgCheckPotentialHeaderValidity (EncapHeader.ofBytes (data.drop i)) (receivedLen - i) then
        some i
      else syncFrom data receivedLen fuel (i + 1)

def wgSyncHeader (b : Buffer) : Bool × Buffer :=
  if b.receivedLen < wgTcpEncapHdrLen then (false, b)
  else
    match syncFrom b.skb.data b.receivedLen (b.receivedLen - wgTcpEncapHdrLen + 1) 0 with
    | some i =>
        (true,
          { skb := b.skb.pull i
            expectedLen := (EncapHeader.ofBytes (b.skb.data.drop i)).length
            receivedLen := b.receivedLen - i })
    | none =>
        let suffixLen := min b.receivedLen (wgTcpEncapHdrLen - 1)
        (false, { skb := b.skb.keepSuffix suffixLen, expectedLen := 0, receivedLen := suffixLen })

/-! ## The loop body

A `break` is an `Except.error` that carries the parser fields as it leaves them. -/

/-- Allocate `partial_skb` when there is none. -/
def openPartial (A : SkbAllocator) (o : ReadOutcome) (p : Parser) : Except Parser Buffer :=
  match p.partialSkb with
  | some skb => .ok ⟨skb, p.expectedLen, p.receivedLen⟩
  | none =>
      if o.partialAlloc then
        let reserve := wgTcpReservedHeaderSize + A.netIpAlign
        .ok ⟨Skb.alloc A (wgTcpSkbReadAllocSize + reserve) reserve, 0, p.receivedLen⟩
      else .error p

def recordReady (b : Buffer) : Bool :=
  if b.expectedLen != 0 then decide (b.expectedLen ≤ b.receivedLen)
  else decide (wgTcpEncapHdrLen ≤ b.receivedLen)

/-- Room for at least a record header behind the bytes already held. -/
def makeRoom (A : SkbAllocator) (o : ReadOutcome) (b : Buffer) : Except Parser Buffer :=
  if b.skb.tailroom < wgTcpEncapHdrLen then
    if o.headerExpand then
      let room := wgTcpSkbReadAllocSize + wgTcpReservedHeaderSize + A.netIpAlign
      .ok { b with skb := b.skb.copyExpand A b.skb.headroom room }
    else .error Parser.empty
  else .ok b

def Buffer.append (b : Buffer) (bytes : Bytes) : Buffer :=
  { b with skb := b.skb.put bytes, receivedLen := b.receivedLen + bytes.length }

/-- Find the header of the record at the front, resynchronising when the front is no header. -/
def checkHeader (b : Buffer) : Except Parser (EncapHeader × Buffer) :=
  if b.receivedLen < wgTcpEncapHdrLen then .error b.toParser
  else
    let header := EncapHeader.ofBytes b.skb.data
    if wgCheckPotentialHeaderValidity header b.receivedLen then
      .ok (header, { b with expectedLen := header.length })
    else
      match wgSyncHeader b with
      | (false, b) =>
          if b.receivedLen < wgTcpEncapHdrLen then .error b.toParser else .error Parser.empty
      | (true, b) =>
          -- The selected candidate is copied and validated again before use.
          let header := EncapHeader.ofBytes b.skb.data
          if b.receivedLen < wgTcpEncapHdrLen then .error Parser.empty
          else if wgCheckPotentialHeaderValidity header b.receivedLen then
            .ok (header, { b with expectedLen := header.length })
          else .error Parser.empty

/-- Room for the rest of an incomplete record. -/
def growRecord (A : SkbAllocator) (o : ReadOutcome) (b : Buffer) : Except Parser Buffer :=
  let needed := b.expectedLen - b.receivedLen
  if b.receivedLen < b.expectedLen ∧ b.skb.tailroom < needed then
    if o.recordExpand then .ok { b with skb := b.skb.copyExpand A b.skb.headroom needed }
    else .error Parser.empty
  else .ok b

/-- Hand a complete record to `wg_receive` and keep what follows it. -/
def deliverRecord (A : SkbAllocator) (o : ReadOutcome) (header : EncapHeader) (b : Buffer) :
    Except Parser (Option Record × Parser) :=
  if b.expectedLen ≤ b.receivedLen ∧ wgTcpEncapHdrLen < b.receivedLen then
    let fragmented := hasFragHeader header.flags
    if fragmented ∧ b.receivedLen < wgTcpEncapHdrLen + wgTcpFragHdrLen then .error b.toParser
    else
      let frag :=
        if fragmented then FragInfo.ofBytes (b.skb.data.drop wgTcpEncapHdrLen) else FragInfo.none
      let body : Buffer :=
        { skb := b.skb.pull (headerLen fragmented)
          expectedLen := b.expectedLen - headerLen fragmented
          receivedLen := b.receivedLen - headerLen fragmented }
      let leftoverLen := body.receivedLen - body.expectedLen
      let reserve := wgTcpReservedHeaderSize + A.netIpAlign
      if body.skb.data.length = 0 then .error Parser.empty
      else if leftoverLen = 0 then
        if o.fakeHeaders then .ok (some ⟨body.skb.data, frag⟩, Parser.empty)
        else .error Parser.empty
      -- A failed leftover allocation leaves the loop with the header already removed.
      else if !o.leftoverAlloc then .error body.toParser
      else if body.skb.data.length < body.expectedLen + leftoverLen then .error Parser.empty
      else if o.fakeHeaders then
        let leftover := (Skb.alloc A (leftoverLen + reserve) reserve).put
          ((body.skb.data.drop body.expectedLen).take leftoverLen)
        .ok (some ⟨body.skb.data.take body.expectedLen, frag⟩, ⟨some leftover, 0, leftoverLen⟩)
      else .error Parser.empty
  else .ok (none, b.toParser)

/-- Everything behind the read: header, growth, delivery. -/
def processBuffer (A : SkbAllocator) (o : ReadOutcome) (b : Buffer) :
    Except Parser (Option Record × Parser) := do
  let (header, b) ← checkHeader b
  let b ← growRecord A o b
  deliverRecord A o header b

/-- Whether a pass reached the end of the loop body or left the loop. -/
inductive Flow where
  | next
  | stop
deriving Repr, DecidableEq

structure Iteration where
  parser : Parser
  /-- The result of `kernel_recvmsg`, when the pass called it. -/
  recv : Option RecvResult
  record : Option Record
  flow : Flow
deriving Repr, DecidableEq

def Iteration.taken (it : Iteration) : Bytes :=
  match it.recv with
  | some (.data bytes) => bytes
  | _ => []

def finishPass (recv : Option RecvResult) :
    Except Parser (Option Record × Parser) → Iteration
  | .error p => ⟨p, recv, none, .stop⟩
  | .ok (record, p) => ⟨p, recv, record, .next⟩

/-- One pass of the loop. `recv` answers a read of at most the given number of bytes. -/
def readIteration (A : SkbAllocator) (o : ReadOutcome) (recv : Nat → RecvResult) (p : Parser) :
    Iteration :=
  match openPartial A o p with
  | .error p => ⟨p, none, none, .stop⟩
  | .ok b =>
      if recordReady b then finishPass none (processBuffer A o b)
      else
        match makeRoom A o b with
        | .error p => ⟨p, none, none, .stop⟩
        | .ok b =>
            if b.skb.tailroom = 0 then ⟨b.toParser, none, none, .stop⟩
            else
              match recv b.skb.tailroom with
              | .data bytes => finishPass (some (.data bytes)) (processBuffer A o (b.append bytes))
              | .eagain => ⟨b.toParser, some .eagain, none, .stop⟩
              | .closed => ⟨Parser.empty, some .closed, none, .stop⟩
              | .error => ⟨Parser.empty, some .error, none, .stop⟩

end WgTcp
