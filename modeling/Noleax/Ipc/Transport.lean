import Noleax.Ipc.Codec
import Noleax.Lib.Framing

/-!
# Messages over a stream socket (`ipc/linux/unix_socket.cpp`)

One direction of a connected pair of sockets. `send` writes the frame of its message
with as many calls of `::send` as the kernel needs, `receive` reads a header and then
its payload with as many calls of `::recv`. Every call may transfer any part of what is
asked, be interrupted, or fail; a failure throws out of `write_exact` or `read_exact`
and leaves what has been transferred where it is.

`transport_delivers`: while no caller goes on with an end that failed within a frame,
the messages received are the first messages sent, and no header is refused.
-/

namespace Noleax.Ipc

open Lib

/-- One end in `send`. -/
inductive Sender where
  | idle
  /-- `write_exact`: what lies behind `offset` -/
  | writing (message : Message) (left : Bytes)
  /-- `write_exact` threw before all was written -/
  | torn (message : Message) (left : Bytes)
deriving DecidableEq

/-- The other end in `receive`. -/
inductive Receiver where
  | idle
  /-- `read_exact` of `header_bytes`: what lies before `offset` -/
  | header (got : Bytes)
  /-- `read_exact` of `message.payload` -/
  | payload (header : FrameHeader) (got : Bytes)
  /-- `read_exact` threw before the message was read -/
  | torn (got : Bytes)
deriving DecidableEq

def Sender.isTorn : Sender → Bool
  | .torn .. => true
  | _ => false

def Receiver.isTorn : Receiver → Bool
  | .torn _ => true
  | _ => false

structure Connection where
  sender : Sender := .idle
  receiver : Receiver := .idle
  /-- written and not yet read -/
  inFlight : Bytes := []
  /-- the messages whose `send` has returned -/
  sent : List Message := []
  /-- the messages `receive` has returned -/
  received : List Message := []
  /-- `receive` has thrown a `ProtocolError` -/
  violated : Bool := false
deriving DecidableEq

inductive TransportAction where
  | send (message : Message)
  /-- `::send` transfers `count` bytes -/
  | write (count : ℕ)
  | writeFails
  | receive
  /-- `::recv` transfers `count` bytes -/
  | read (count : ℕ)
  | readFails

namespace Connection

/-- The frame of the message, or the exception of `encode_frame` and nothing written. -/
def send (s : Connection) (message : Message) : Connection :=
  match encodeFrame message with
  | .ok frame => { s with sender := .writing message frame }
  | .error _ => s

def write (s : Connection) (message : Message) (left : Bytes) (count : ℕ) : Connection :=
  let s := { s with inFlight := s.inFlight ++ left.take count }
  if left.drop count = [] then { s with sender := .idle, sent := s.sent ++ [message] }
  else { s with sender := .writing message (left.drop count) }

/-- `receive` after `count` more bytes of the payload. -/
def readPayload (s : Connection) (header : FrameHeader) (got : Bytes) : Connection :=
  if got.length = header.payloadSize.toNat then
    { s with
        receiver := .idle
        received := s.received ++ [⟨header.messageType, header.requestId, got⟩] }
  else { s with receiver := .payload header got }

/-- `receive` after some more bytes of the header. -/
def readHeader (s : Connection) (got : Bytes) : Connection :=
  if got.length = frameHeaderSize.toNat then
    match decodeFrameHeader got with
    | .ok header => s.readPayload header []
    | .error _ => { s with receiver := .idle, violated := true }
  else { s with receiver := .header got }

/-- The bytes `::recv` may take: no more than are there, and no more than are asked for. -/
def Takes (s : Connection) (wanted count : ℕ) : Prop :=
  0 < count ∧ count ≤ wanted ∧ count ≤ s.inFlight.length

instance (s : Connection) (wanted count : ℕ) : Decidable (s.Takes wanted count) :=
  inferInstanceAs (Decidable (_ ∧ _))

def read (s : Connection) (count : ℕ) : Option Connection :=
  let taken := { s with inFlight := s.inFlight.drop count }
  match s.receiver with
  | .header got =>
      if s.Takes (frameHeaderSize.toNat - got.length) count then
        some (taken.readHeader (got ++ s.inFlight.take count))
      else none
  | .payload header got =>
      if s.Takes (header.payloadSize.toNat - got.length) count then
        some (taken.readPayload header (got ++ s.inFlight.take count))
      else none
  | _ => none

/-- A call that throws before the first byte has no effect. -/
def writeFails (s : Connection) (message : Message) (left : Bytes) : Connection :=
  { s with
      sender := if encodeFrame message = .ok left then .idle else .torn message left }

def readFails (s : Connection) : Option Connection :=
  match s.receiver with
  | .header [] => some { s with receiver := .idle }
  | .header got => some { s with receiver := .torn got }
  | .payload header got => some { s with receiver := .torn (frameHeaderBytes header ++ got) }
  | _ => none

/-- An interrupted call is tried again: it is no step. -/
def perform (s : Connection) : TransportAction → Option Connection
  | .send message =>
      match s.sender with
      | .writing .. => none
      | _ => some (s.send message)
  | .write count =>
      match s.sender with
      | .writing message left =>
          if 0 < count ∧ count ≤ left.length then some (s.write message left count) else none
      | _ => none
  | .writeFails =>
      match s.sender with
      | .writing message left => some (s.writeFails message left)
      | _ => none
  | .receive =>
      match s.receiver with
      | .idle | .torn _ => some { s with receiver := .header [] }
      | _ => none
  | .read count => s.read count
  | .readFails => s.readFails

/-- Nobody goes on with an end that failed within a frame. -/
def Orderly (s : Connection) : TransportAction → Prop
  | .send _ => s.sender.isTorn = false
  | .receive => s.receiver.isTorn = false
  | _ => True

instance (s : Connection) (a : TransportAction) : Decidable (s.Orderly a) :=
  match a with
  | .send _ => inferInstanceAs (Decidable (s.sender.isTorn = false))
  | .receive => inferInstanceAs (Decidable (s.receiver.isTorn = false))
  | .write _ | .writeFails | .read _ | .readFails => isTrue trivial

/-- A run whose steps are orderly. -/
inductive OrderlyRun : Connection → Connection → Prop
  | refl (s) : OrderlyRun s s
  | step {s t u} (a : TransportAction) (hrun : OrderlyRun s t) (horderly : t.Orderly a)
      (hstep : t.perform a = some u) : OrderlyRun s u

end Connection

/-! ## What is on its way -/

theorem frames_prefixCode : PrefixCode Message.Encodable Message.frame where
  nonempty message h := by
    have hlength := frameHeaderBytes_length message.header
    rw [(List.append_eq_nil_iff.mp h).1] at hlength
    cases hlength
  unique m n rest more hm hn h := by
    unfold Message.frame at h
    rw [List.append_assoc, List.append_assoc] at h
    have hlength : (frameHeaderBytes m.header).length = (frameHeaderBytes n.header).length :=
      (frameHeaderBytes_length _).trans (frameHeaderBytes_length _).symm
    obtain ⟨hheader, hpayload⟩ := List.append_inj h hlength
    -- the decoder tells headers of different messages apart
    have hmn : m.header = n.header := by
      have hdecode := decodeFrameHeader_eq_ok.mpr ⟨hm.header, rfl⟩
      rw [hheader, decodeFrameHeader_eq_ok.mpr ⟨hn.header, rfl⟩] at hdecode
      exact (Except.ok.inj hdecode).symm
    have hsize : m.payload.length = n.payload.length := by
      have hsizes := congrArg (fun header => header.payloadSize.toNat) hmn
      exact (toNat_payload hm.size).symm.trans (hsizes.trans (toNat_payload hn.size))
    have htype : m.type = n.type := congrArg FrameHeader.messageType hmn
    have hid : m.requestId = n.requestId := congrArg FrameHeader.requestId hmn
    obtain ⟨type, requestId, payload⟩ := m
    obtain ⟨type', requestId', payload'⟩ := n
    obtain rfl := htype
    obtain rfl := hid
    obtain rfl := (List.append_inj hpayload hsize).1
    rfl

/-- The message whose `send` has not returned. -/
def Sender.current : Sender → List Message
  | .idle => []
  | .writing message _ | .torn message _ => [message]

def Sender.left : Sender → Bytes
  | .idle => []
  | .writing _ left | .torn _ left => left

/-- What has been read of the next message. -/
def Receiver.consumed : Receiver → Bytes
  | .idle => []
  | .header got | .torn got => got
  | .payload expected got => frameHeaderBytes expected ++ got

/-- What has been read is the start of what is to be read. -/
def Receiver.Partial : Receiver → Prop
  | .header got => got.length < frameHeaderSize.toNat
  | .payload expected got => expected.Valid ∧ got.length < expected.payloadSize.toNat
  | .idle | .torn _ => True

namespace Connection

/-- No byte is lost, changed or moved on its way. -/
structure Flows (s : Connection) : Prop where
  conserved : (s.sent ++ s.sender.current).flatMap Message.frame =
    s.received.flatMap Message.frame ++ (s.receiver.consumed ++ (s.inFlight ++ s.sender.left))
  pending : s.sender.current ≠ [] → s.sender.left ≠ []
  encodable : ∀ message ∈ s.sent ++ s.sender.current, message.Encodable
  whole : ∀ message ∈ s.received, message.Encodable
  partly : s.receiver.Partial
  accepted : s.violated = false

section Flows

variable {s t : Connection} {message : Message} {left got : Bytes} {count : ℕ}

theorem flows_start : Flows {} where
  conserved := rfl
  pending h := absurd rfl h
  encodable _ h := nomatch h
  whole _ h := nomatch h
  partly := trivial
  accepted := rfl

theorem flows_send (h : s.Flows) (hidle : s.sender = .idle) : (s.send message).Flows := by
  unfold Connection.send
  cases hencode : encodeFrame message with
  | error e => exact h
  | ok frame =>
      obtain ⟨hencodable, rfl⟩ := encodeFrame_eq_ok.mp hencode
      obtain ⟨hconserved, -, hall, hwhole, hpartly, haccepted⟩ := h
      rw [hidle] at hconserved hall
      refine ⟨?_, ?_, ?_, hwhole, hpartly, haccepted⟩
      · show (s.sent ++ [message]).flatMap _ = _ ++ (_ ++ (_ ++ message.frame))
        simp only [Sender.current, Sender.left, List.append_nil] at hconserved
        simp [hconserved]
      · intro _
        exact frames_prefixCode.nonempty message
      · intro m hm
        rcases List.mem_append.mp hm with hm | hm
        · exact hall m (List.mem_append_left _ hm)
        · rw [List.mem_singleton.mp hm]
          exact hencodable

theorem flows_write (h : s.Flows) (hwriting : s.sender = .writing message left) :
    (s.write message left count).Flows := by
  obtain ⟨hconserved, -, hall, hwhole, hpartly, haccepted⟩ := h
  rw [hwriting] at hconserved hall
  simp only [Sender.current, Sender.left] at hconserved hall
  unfold Connection.write
  dsimp only
  split
  · rename_i hdone
    have htake : left.take count = left := by
      rw [← List.append_nil (left.take count), ← hdone, List.take_append_drop]
    refine ⟨?_, fun hcurrent => absurd rfl hcurrent, ?_, hwhole, hpartly, haccepted⟩
    · simp only [Sender.current, Sender.left, List.append_nil]
      rw [htake]
      exact hconserved
    · simpa only [Sender.current, List.append_nil] using hall
  · rename_i hmore
    refine ⟨?_, fun _ => hmore, hall, hwhole, hpartly, haccepted⟩
    simp only [Sender.current, Sender.left]
    rw [hconserved, List.append_assoc s.inFlight, List.take_append_drop]

theorem flows_writeFails (h : s.Flows) (hwriting : s.sender = .writing message left) :
    (s.writeFails message left).Flows := by
  obtain ⟨hconserved, hpending, hall, hwhole, hpartly, haccepted⟩ := h
  rw [hwriting] at hconserved hall hpending
  unfold Connection.writeFails
  split
  · rename_i hfull
    obtain ⟨-, rfl⟩ := encodeFrame_eq_ok.mp hfull
    refine ⟨?_, fun hcurrent => absurd rfl hcurrent, ?_, hwhole, hpartly, haccepted⟩
    · simp only [Sender.current, Sender.left, List.flatMap_append, List.flatMap_singleton,
        ← List.append_assoc] at hconserved
      simpa [Sender.current, Sender.left] using List.append_cancel_right hconserved
    · intro m hm
      refine hall m (List.mem_append_left _ ?_)
      simpa [Sender.current] using hm
  · exact ⟨hconserved, hpending, hall, hwhole, hpartly, haccepted⟩

/-- A call of `::recv` moves bytes from the connection to the receiver. -/
theorem flows_readPayload {expected : FrameHeader} (h : s.Flows) (hvalid : expected.Valid)
    (hconsumed : ∀ rest, s.receiver.consumed ++ (s.inFlight ++ rest) =
      frameHeaderBytes expected ++ got ++ (t.inFlight ++ rest))
    (hroom : got.length ≤ expected.payloadSize.toNat)
    (hsame : t = { s with inFlight := t.inFlight }) : (t.readPayload expected got).Flows := by
  obtain ⟨hconserved, hpending, hall, hwhole, -, haccepted⟩ := h
  rw [hconsumed] at hconserved
  rw [hsame]
  unfold readPayload
  split
  · rename_i hsize
    obtain ⟨hencodable, hframe⟩ := hvalid.frame hsize
    refine ⟨?_, hpending, hall, ?_, trivial, haccepted⟩
    · simp [Receiver.consumed, hconserved, hframe]
    · intro m hm
      rcases List.mem_append.mp hm with hm | hm
      · exact hwhole m hm
      · rw [List.mem_singleton.mp hm]
        exact hencodable
  · rename_i hsize
    exact ⟨hconserved, hpending, hall, hwhole, ⟨hvalid, by omega⟩, haccepted⟩

/-- What was received was sent first. -/
theorem Flows.isPrefix (h : s.Flows) : s.received <+: s.sent ++ s.sender.current :=
  frames_prefixCode.isPrefix h.whole h.encodable h.conserved.symm

/-- The header that arrives is the header of the next message. -/
theorem Flows.next_header (h : s.Flows) {rest : Bytes}
    (hconsumed : s.receiver.consumed ++ (s.inFlight ++ s.sender.left) = got ++ rest)
    (hlength : got.length = frameHeaderSize.toNat) :
    ∃ message : Message, message.Encodable ∧ got = frameHeaderBytes message.header := by
  obtain ⟨more, hmore⟩ := h.isPrefix
  have hconserved := h.conserved
  rw [← hmore, List.flatMap_append, List.append_cancel_left_eq, hconsumed] at hconserved
  cases more with
  | nil =>
      have hlengths := congrArg List.length hconserved
      rw [List.length_append, hlength] at hlengths
      cases Nat.eq_zero_of_add_eq_zero_right hlengths.symm
  | cons message more =>
      have hmem : message ∈ s.sent ++ s.sender.current := by
        rw [← hmore]
        simp
      refine ⟨message, h.encodable _ hmem, ?_⟩
      rw [List.flatMap_cons, Message.frame, List.append_assoc] at hconserved
      have hheader := (frameHeaderBytes_length message.header).trans hlength.symm
      exact (List.append_inj hconserved hheader).1.symm

theorem flows_readHeader (h : s.Flows)
    (hconsumed : ∀ rest, s.receiver.consumed ++ (s.inFlight ++ rest) =
      got ++ (t.inFlight ++ rest))
    (hroom : got.length ≤ frameHeaderSize.toNat) (hsame : t = { s with inFlight := t.inFlight }) :
    (t.readHeader got).Flows := by
  unfold readHeader
  split
  · rename_i hlength
    obtain ⟨message, hencodable, rfl⟩ := h.next_header (hconsumed _) hlength
    rw [decodeFrameHeader_eq_ok.mpr ⟨hencodable.header, rfl⟩]
    refine flows_readPayload h hencodable.header ?_ (Nat.zero_le _) hsame
    intro rest
    rw [List.append_nil, hconsumed]
  · rename_i hlength
    obtain ⟨hconserved, hpending, hall, hwhole, -, haccepted⟩ := h
    rw [hconsumed] at hconserved
    rw [hsame]
    refine ⟨hconserved, hpending, hall, hwhole, ?_, haccepted⟩
    show got.length < _
    omega

theorem flows_read (h : s.Flows) (hread : s.read count = some t) : t.Flows := by
  have hpartly := h.partly
  unfold Connection.read at hread
  dsimp only at hread
  split at hread
  · rename_i got hreceiver
    split at hread
    · rename_i htakes
      cases hread
      obtain ⟨-, hcount, hroom⟩ := htakes
      rw [hreceiver] at hpartly
      refine flows_readHeader h ?_ ?_ rfl
      · intro rest
        rw [hreceiver]
        simp only [Receiver.consumed]
        rw [List.append_assoc got, ← List.append_assoc (s.inFlight.take count),
          List.take_append_drop]
      · rw [List.length_append, List.length_take]
        have hgot : got.length < frameHeaderSize.toNat := hpartly
        omega
    · cases hread
  · rename_i expected got hreceiver
    split at hread
    · rename_i htakes
      cases hread
      obtain ⟨-, hcount, hroom⟩ := htakes
      rw [hreceiver] at hpartly
      refine flows_readPayload h hpartly.1 ?_ ?_ rfl
      · intro rest
        rw [hreceiver]
        simp only [Receiver.consumed]
        rw [← List.append_assoc _ got, List.append_assoc (frameHeaderBytes expected ++ got),
          ← List.append_assoc (s.inFlight.take count), List.take_append_drop]
      · rw [List.length_append, List.length_take]
        have hgot := hpartly.2
        omega
    · cases hread
  · cases hread

theorem flows_readFails (h : s.Flows) (hfails : s.readFails = some t) : t.Flows := by
  obtain ⟨hconserved, hpending, hall, hwhole, -, haccepted⟩ := h
  unfold Connection.readFails at hfails
  split at hfails
  · rename_i hreceiver
    cases hfails
    rw [hreceiver] at hconserved
    exact ⟨hconserved, hpending, hall, hwhole, trivial, haccepted⟩
  · rename_i hreceiver
    cases hfails
    rw [hreceiver] at hconserved
    exact ⟨hconserved, hpending, hall, hwhole, trivial, haccepted⟩
  · rename_i hreceiver
    cases hfails
    rw [hreceiver] at hconserved
    exact ⟨hconserved, hpending, hall, hwhole, trivial, haccepted⟩
  · cases hfails

/-- One orderly step. -/
theorem flows_perform {a : TransportAction} (h : s.Flows) (horderly : s.Orderly a)
    (hstep : s.perform a = some t) : t.Flows := by
  cases a with
  | send message =>
      cases hsender : s.sender with
      | idle =>
          simp only [perform, hsender] at hstep
          cases hstep
          exact flows_send h hsender
      | writing message left =>
          simp only [perform, hsender] at hstep
          cases hstep
      | torn message left =>
          have htorn : s.sender.isTorn = false := horderly
          rw [hsender] at htorn
          cases htorn
  | write count =>
      cases hsender : s.sender with
      | writing message left =>
          simp only [perform, hsender] at hstep
          split at hstep
          · cases hstep
            exact flows_write h hsender
          · cases hstep
      | idle | torn message left =>
          simp only [perform, hsender] at hstep
          cases hstep
  | writeFails =>
      cases hsender : s.sender with
      | writing message left =>
          simp only [perform, hsender] at hstep
          cases hstep
          exact flows_writeFails h hsender
      | idle | torn message left =>
          simp only [perform, hsender] at hstep
          cases hstep
  | receive =>
      obtain ⟨hconserved, hpending, hall, hwhole, hpartly, haccepted⟩ := h
      cases hreceiver : s.receiver with
      | idle =>
          simp only [perform, hreceiver] at hstep
          cases hstep
          rw [hreceiver] at hconserved
          refine ⟨hconserved, hpending, hall, hwhole, ?_, haccepted⟩
          show ([] : Bytes).length < frameHeaderSize.toNat
          decide
      | torn got =>
          have htorn : s.receiver.isTorn = false := horderly
          rw [hreceiver] at htorn
          cases htorn
      | header got | payload expected got =>
          simp only [perform, hreceiver] at hstep
          cases hstep
  | read count => exact flows_read h hstep
  | readFails => exact flows_readFails h hstep

theorem OrderlyRun.flows (hrun : OrderlyRun s t) (h : s.Flows) : t.Flows := by
  induction hrun with
  | refl => exact h
  | step a hrun horderly hstep ih => exact flows_perform ih horderly hstep

/-- A message that is received has been sent to its end. -/
theorem Flows.received_prefix (h : s.Flows) : s.received <+: s.sent := by
  have hprefix := h.isPrefix
  cases hsender : s.sender with
  | idle => simpa [hsender, Sender.current] using hprefix
  | writing message left | torn message left =>
      have hpending := h.pending
      have hconserved := h.conserved
      simp only [hsender, Sender.current, Sender.left] at hprefix hpending hconserved
      rcases List.prefix_concat_iff.mp hprefix with hall | hprefix
      · -- the last byte of the current message is not written yet
        rw [hall] at hconserved
        rw [List.self_eq_append_right, List.append_eq_nil_iff, List.append_eq_nil_iff]
          at hconserved
        exact absurd hconserved.2.2 (hpending (List.cons_ne_nil _ _))
      · exact hprefix

/-- Nothing is lost between two ends that are idle. -/
theorem Flows.received_all (h : s.Flows) (hsender : s.sender = .idle)
    (hreceiver : s.receiver = .idle) (hempty : s.inFlight = []) : s.received = s.sent := by
  have hconserved := h.conserved
  rw [hsender, hreceiver, hempty] at hconserved
  simp only [Sender.current, Sender.left, Receiver.consumed, List.append_nil] at hconserved
  have hwhole : s.sent <+: s.received :=
    frames_prefixCode.isPrefix (fun m hm => h.encodable m (List.mem_append_left _ hm)) h.whole
      ((List.append_nil _).trans hconserved)
  exact h.received_prefix.eq_of_length_le hwhole.length_le

end Flows

/-- However the kernel cuts the frames into pieces, and whatever calls fail: as long as no
caller goes on with an end that failed within a frame, the messages received are the
first messages sent, no header is refused, and nothing is missing when nothing is on its
way. -/
theorem transport_delivers {s : Connection} (hrun : OrderlyRun {} s) :
    s.received <+: s.sent ∧ s.violated = false ∧
      (s.sender = .idle → s.receiver = .idle → s.inFlight = [] → s.received = s.sent) :=
  have h := hrun.flows flows_start
  ⟨h.received_prefix, h.accepted, h.received_all⟩

/-! ### A run -/

/-- The steps, each orderly. -/
def replay : List TransportAction → Connection → Option Connection
  | [], s => some s
  | a :: as, s => if s.Orderly a then (s.perform a).bind (replay as) else none

theorem orderlyRun_of_replay {s t : Connection} {as : List TransportAction}
    (hrun : OrderlyRun s t) {u : Connection} (hreplay : replay as t = some u) :
    OrderlyRun s u := by
  induction as generalizing t with
  | nil =>
      cases hreplay
      exact hrun
  | cons a as ih =>
      simp only [replay] at hreplay
      split at hreplay
      · rename_i horderly
        obtain ⟨m, hstep, hreplay⟩ := Option.bind_eq_some_iff.mp hreplay
        exact ih (hrun.step a horderly hstep) hreplay
      · cases hreplay

/-- Two messages in pieces, the first of which is read while it is written; the second
read times out once before its first byte. -/
def samplePieces : List TransportAction :=
  [.send ⟨.agentHello, 1, [7, 8]⟩, .receive, .write 20, .read 20, .write 14, .read 12, .read 2,
    .receive, .readFails, .send ⟨.error, 2, []⟩, .write 32, .receive, .read 32]

theorem transport_delivers_pieces : ∃ s, replay samplePieces {} = some s ∧
    s.received.length = 2 ∧ s.received <+: s.sent ∧ s.violated = false ∧
      (s.sender = .idle → s.receiver = .idle → s.inFlight = [] → s.received = s.sent) := by
  have hreplay : (replay samplePieces {}).isSome ∧
      (replay samplePieces {}).all (fun s => s.received.length = 2) := by
    decide +kernel
  obtain ⟨s, hs⟩ := Option.isSome_iff_exists.mp hreplay.1
  have hlength := hreplay.2
  rw [hs] at hlength
  exact ⟨s, hs, of_decide_eq_true hlength,
    transport_delivers (orderlyRun_of_replay (.refl {}) hs)⟩

end Connection

end Noleax.Ipc
