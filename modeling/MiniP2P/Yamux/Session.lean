import MiniP2P.Lib.BTreeMap
import MiniP2P.Yamux.Decoder

/-! The multiplexing session. Every call is a function of the session value. `none`
is a call that does not return: a panic (an unsigned subtraction below zero, an
`expect` on nothing) or a loop that does not end. An `Except` beside the new
session is the call's `Result`; an error leaves whatever was already changed.

Window counters are natural numbers, checked where the program checks them. The
queue caps are `usize` values, so an addition that overflows `usize` exceeds
every cap and is refused by the comparison alone. -/
namespace Yamux
open Collections

instance instLinearOrderUInt32 : LinearOrder UInt32 where
  le_refl := UInt32.le_refl
  le_trans := fun _ _ _ => UInt32.le_trans
  lt_iff_le_not_ge := fun _ _ =>
    ⟨fun h => ⟨UInt32.le_of_lt h, UInt32.not_le.mpr h⟩, fun h => UInt32.not_le.mp h.2⟩
  le_antisymm := fun _ _ => UInt32.le_antisymm
  le_total := UInt32.le_total
  toDecidableLE := inferInstance
  toDecidableEq := inferInstance
  toDecidableLT := inferInstance

def yamuxProtocolId : String := "/yamux/1.0.0"
def keepaliveIntervalMs : Nat := 30000
def defaultReceiveWindow : Nat := 256 * 1024
def u32Max : Nat := 2 ^ 32 - 1
def u64Max : Nat := 2 ^ 64 - 1

def checkedSub (a b : Nat) : Option Nat := if b ≤ a then some (a - b) else none

inductive YamuxRole where
  | client | server
  deriving DecidableEq

structure YamuxConfig where
  receiveWindow : UInt32
  maxFrameLen : UInt32
  maxStreams : Nat
  maxBufferedSend : Nat
  maxTotalBufferedSend : Nat
  deriving DecidableEq

/-- A configuration that passes the checks of `withConfig`. -/
structure ValidConfig extends YamuxConfig where
  window_ok : defaultReceiveWindow ≤ receiveWindow.toNat
  frame_ok : 0 < maxFrameLen.toNat
  deriving DecidableEq

def YamuxConfig.default : ValidConfig where
  receiveWindow := 262144
  maxFrameLen := 1024 * 1024
  maxStreams := 256
  maxBufferedSend := 256 * 1024
  maxTotalBufferedSend := 4 * 1024 * 1024
  window_ok := by decide
  frame_ok := by decide

inductive YamuxOutput where
  | outbound (bytes : List UInt8)
  | incomingStream (stream : UInt32)
  | data (stream : UInt32) (data : List UInt8)
  | remoteWriteClosed (stream : UInt32)
  | streamClosed (stream : UInt32)
  | goAwayReceived (code : UInt32)
  deriving DecidableEq

def hasFlag (flags flag : UInt16) : Bool := flags &&& flag != 0

inductive OpenFlag where
  | syn | ack
  deriving DecidableEq

structure StreamState where
  locallyOpened : Bool
  pendingOpen : Option OpenFlag
  acknowledged : Bool
  sendWindow : Nat
  receiveWindow : Nat
  deliveredSinceUpdate : Nat
  pendingCredit : Nat
  sendBuffer : List (List UInt8)
  bufferedSend : Nat
  closePending : Bool
  localWriteClosed : Bool
  remoteWriteClosed : Bool
  deriving DecidableEq

namespace StreamState

def outbound (config : ValidConfig) : StreamState where
  locallyOpened := true
  pendingOpen := some .syn
  acknowledged := false
  sendWindow := defaultReceiveWindow
  receiveWindow := defaultReceiveWindow
  deliveredSinceUpdate := 0
  pendingCredit := config.receiveWindow.toNat - defaultReceiveWindow
  sendBuffer := []
  bufferedSend := 0
  closePending := false
  localWriteClosed := false
  remoteWriteClosed := false

def inbound (config : ValidConfig) (sendWindow : Nat) : StreamState where
  locallyOpened := false
  pendingOpen := some .ack
  acknowledged := false
  sendWindow := sendWindow
  receiveWindow := defaultReceiveWindow
  deliveredSinceUpdate := 0
  pendingCredit := config.receiveWindow.toNat - defaultReceiveWindow
  sendBuffer := []
  bufferedSend := 0
  closePending := false
  localWriteClosed := false
  remoteWriteClosed := false

variable (state : StreamState)

def takeOpenFlag : UInt16 × StreamState :=
  match state.pendingOpen with
  | some .syn => (flagSyn, { state with pendingOpen := none })
  | some .ack => (flagAck, { state with pendingOpen := none, acknowledged := true })
  | none => (0, state)

def noteAck (flags : UInt16) : StreamState :=
  { state with
    acknowledged := state.acknowledged || (hasFlag flags flagAck && state.locallyOpened) }

def hasDeferredControl : Bool :=
  state.pendingOpen.isSome || state.pendingCredit != 0

/-- The loop of `send` that cuts the bytes within the window into frames. -/
def sendLoop (stream : UInt32) (maxFrameLen : Nat) :
    Nat → Bool → StreamState → List UInt8 → List Frame →
      Option (Except YamuxError (List Frame) × StreamState)
  | _, _, state, [], frames => some (.ok frames, state)
  | 0, _, _, _ :: _, _ => none
  | fuel + 1, first, state, immediate@(_ :: _), frames =>
    let rest := if maxFrameLen < immediate.length then immediate.drop maxFrameLen else []
    let (flags, state) := if first then state.takeOpenFlag else (0, state)
    match Frame.data stream flags (immediate.take maxFrameLen) with
    | .error e => some (.error e, state)
    | .ok frame => sendLoop stream maxFrameLen fuel false state rest (frames ++ [frame])

def spend (n : Nat) : StreamState :=
  { state with sendWindow := state.sendWindow - n }

/-- The frames `send` queues at once, from the bytes within the window. -/
def sendNow (stream : UInt32) (maxFrameLen : Nat) (now : List UInt8) :
    Option (Except YamuxError (List Frame) × StreamState) :=
  let state := state.spend now.length
  if now.length ≠ 0 then sendLoop stream maxFrameLen now.length true state now []
  else some (.ok [], state)

/-- The part of `send` that touches only the stream, after its limits were checked. -/
def send (stream : UInt32) (maxFrameLen : Nat) (data : List UInt8) :
    Option (Except YamuxError (List Frame) × StreamState) :=
  if data.isEmpty && state.pendingOpen.isSome then
    let (flags, state) := state.takeOpenFlag
    match Frame.data stream flags [] with
    | .error e => some (.error e, state)
    | .ok frame => some (.ok [frame], state)
  else
    let immediateLen := min data.length state.sendWindow
    let queued := data.drop immediateLen
    match state.sendNow stream maxFrameLen (data.take immediateLen) with
    | none => none
    | some (.error e, state) => some (.error e, state)
    | some (.ok frames, state) =>
      if queued.isEmpty then some (.ok frames, state)
      else some (.ok frames, { state with
        sendBuffer := state.sendBuffer ++ [queued]
        bufferedSend := state.bufferedSend + queued.length })

/-- Pop the front chunk, leaving `rest`, and spend what is sent of it. -/
def takeChunk (rest : List (List UInt8)) (sendLen bufferedSend : Nat) : StreamState :=
  { state.spend sendLen with sendBuffer := rest, bufferedSend := bufferedSend }

def putBack (remainder : List UInt8) : StreamState :=
  { state with
    sendBuffer := if remainder.isEmpty then state.sendBuffer else remainder :: state.sendBuffer }

/-- The loop of `flush_buffered`: parked chunks go out while the window lasts. -/
def flushLoop (stream : UInt32) (maxFrameLen : Nat) : Nat → StreamState → List Frame → Nat →
      Option (Except YamuxError (List Frame × Nat) × StreamState)
  | fuel, state, frames, drained =>
    if state.sendWindow = 0 then some (.ok (frames, drained), state)
    else
      match state.sendBuffer, fuel with
      | [], _ => some (.ok (frames, drained), state)
      | _ :: _, 0 => none
      | chunk :: buffer, fuel + 1 => do
        let sendLen := min (min chunk.length state.sendWindow) maxFrameLen
        let bufferedSend ← checkedSub state.bufferedSend sendLen
        let (flags, state) := (state.takeChunk buffer sendLen bufferedSend).takeOpenFlag
        match Frame.data stream flags (chunk.take sendLen) with
        | .error e => some (.error e, state)
        | .ok frame =>
          flushLoop stream maxFrameLen fuel (state.putBack (chunk.drop sendLen))
            (frames ++ [frame]) (drained + sendLen)

/-- Enough iterations for `flushLoop`: every one sends a byte or drops a chunk. -/
def flushFuel : Nat := (state.sendBuffer.map (fun c => c.length + 1)).sum

/-- The stream part of `flush_buffered`: frames, drained bytes and whether the deferred
FIN went out. -/
def flush (stream : UInt32) (maxFrameLen : Nat) :
    Option (Except YamuxError (List Frame × Nat × Bool) × StreamState) :=
  match flushLoop stream maxFrameLen state.flushFuel state [] 0 with
  | none => none
  | some (.error e, state) => some (.error e, state)
  | some (.ok (frames, drained), state) =>
    if state.sendBuffer.isEmpty && state.closePending then
      let (flags, state) := { state with
        closePending := false
        localWriteClosed := true }.takeOpenFlag
      match Frame.data stream (flags ||| flagFin) [] with
      | .error e => some (.error e, state)
      | .ok frame => some (.ok (frames ++ [frame], drained, true), state)
    else some (.ok (frames, drained, false), state)

/-- Receive accounting of `on_data`: spend the window, and turn what was delivered into
credit past half of the configured window. -/
def receive (config : ValidConfig) (stream : UInt32) (payloadLen : Nat) :
    Option (Except YamuxError Unit × StreamState) :=
  if state.receiveWindow < payloadLen then some (.error (.receiveWindowExceeded stream), state)
  else
    let state := { state with receiveWindow := state.receiveWindow - payloadLen }
    if u32Max < state.deliveredSinceUpdate + payloadLen then
      some (.error (.protocol "receive accounting overflow"), state)
    else
      let state := { state with deliveredSinceUpdate := state.deliveredSinceUpdate + payloadLen }
      if config.receiveWindow.toNat / 2 < state.deliveredSinceUpdate then
        if u64Max < state.pendingCredit + state.deliveredSinceUpdate then none
        else some (.ok (), { state with
          pendingCredit := state.pendingCredit + state.deliveredSinceUpdate
          deliveredSinceUpdate := 0 })
      else some (.ok (), state)

end StreamState

/-- Everything of a session but its frame decoder. Only feeding bytes, failing and
going away touch the decoder. -/
structure SessionCore where
  role : YamuxRole
  config : ValidConfig
  streams : BTreeMap UInt32 StreamState
  nextStreamId : Option UInt32
  pending : List YamuxOutput
  totalBufferedSend : Nat
  failed : Bool
  localGoAway : Bool
  remoteGoAway : Bool
  lastActivityMs : Option Nat
  dirty : Bool
  nextPingNonce : UInt32

abbrev Returned (α : Type) := Except YamuxError α × SessionCore

namespace SessionCore

variable (s : SessionCore)

def queueFrame (frame : Frame) : SessionCore :=
  { s with dirty := true, pending := s.pending ++ [.outbound frame.encode] }

def queueFrames (s : SessionCore) : List Frame → SessionCore
  | [] => s
  | frame :: frames => (s.queueFrame frame).queueFrames frames

def emit (output : YamuxOutput) : SessionCore :=
  { s with pending := s.pending ++ [output] }

def store (stream : UInt32) (state : StreamState) (total : Nat) : SessionCore :=
  { s with streams := s.streams.insert stream state, totalBufferedSend := total }

def setStream (stream : UInt32) (state : StreamState) : SessionCore :=
  s.store stream state s.totalBufferedSend

def ensureActive : Except YamuxError Unit :=
  if s.failed then .error .failed
  else if s.localGoAway || s.remoteGoAway then .error .sessionClosed
  else .ok ()

def validRemoteStreamId (stream : UInt32) : Bool :=
  stream != 0 &&
    match s.role with
    | .client => stream.toNat % 2 == 0
    | .server => stream.toNat % 2 != 0

def queueResetForUnknown (stream : UInt32) : Returned Unit :=
  match Frame.data stream flagRst [] with
  | .error e => (.error e, s)
  | .ok frame => (.ok (), s.queueFrame frame)

def removeStream (stream : UInt32) (emitClosed : Bool) : Option SessionCore :=
  match s.streams.get stream with
  | none => some s
  | some state => do
    let total ← checkedSub s.totalBufferedSend state.bufferedSend
    let s := { s with streams := s.streams.remove stream, totalBufferedSend := total }
    some (if emitClosed then s.emit (.streamClosed stream) else s)

/-- `remove_stream` for a stream whose both directions are closed. -/
def removeClosed (stream : UInt32) (fullyClosed : Bool) : Option SessionCore :=
  if fullyClosed then s.removeStream stream true else some s

def closeAllStreams : SessionCore :=
  { s with
    streams := .empty
    totalBufferedSend := 0
    pending := s.pending ++ s.streams.keys.map .streamClosed }

def failProtocol : SessionCore :=
  { s with
    failed := true
    streams := .empty
    totalBufferedSend := 0
    dirty := true
    pending := .outbound (Frame.goAway 1).encode :: s.streams.keys.map .streamClosed }

def openStream : Option (Returned UInt32) :=
  match s.ensureActive with
  | .error e => some (.error e, s)
  | .ok () =>
    if s.config.maxStreams ≤ s.streams.len then some (.error .tooManyStreams, s)
    else
      match s.nextStreamId with
      | none => some (.error .streamsExhausted, s)
      | some stream =>
        some (.ok stream, { s with
          nextStreamId := if stream.toNat + 2 ≤ u32Max then some (stream + 2) else none
          streams := s.streams.insert stream (.outbound s.config) })

def send (stream : UInt32) (data : List UInt8) : Option (Returned Unit) :=
  match s.ensureActive with
  | .error e => some (.error e, s)
  | .ok () =>
    match s.streams.get stream with
    | none => some (.error (.unknownStream stream), s)
    | some state =>
      if state.localWriteClosed || state.closePending then
        some (.error (.streamWriteClosed stream), s)
      else
        let queuedLen := data.length - min data.length state.sendWindow
        if s.config.maxBufferedSend < state.bufferedSend + queuedLen ||
            s.config.maxTotalBufferedSend < s.totalBufferedSend + queuedLen then
          some (.error (.sendBufferFull stream queuedLen s.config.maxBufferedSend
            s.config.maxTotalBufferedSend), s)
        else
          match state.send stream s.config.maxFrameLen.toNat data with
          | none => none
          | some (.error e, state) => some (.error e, s.setStream stream state)
          | some (.ok frames, state) =>
            let s := s.store stream state (s.totalBufferedSend + queuedLen)
            some (.ok (), s.queueFrames frames)

def closeWrite (stream : UInt32) : Option (Returned Unit) :=
  match s.ensureActive with
  | .error e => some (.error e, s)
  | .ok () =>
    match s.streams.get stream with
    | none => some (.error (.unknownStream stream), s)
    | some state =>
      if state.localWriteClosed || state.closePending then some (.ok (), s)
      else if state.bufferedSend ≠ 0 then
        some (.ok (), s.setStream stream { state with closePending := true })
      else
        let (flags, state) := state.takeOpenFlag
        match Frame.data stream (flags ||| flagFin) [] with
        | .error e => some (.error e, s.setStream stream state)
        | .ok frame => do
          let s := (s.setStream stream { state with localWriteClosed := true }).queueFrame frame
          let s ← s.removeClosed stream state.remoteWriteClosed
          some (.ok (), s)

def reset (stream : UInt32) : Option (Returned Unit) :=
  match s.ensureActive with
  | .error e => some (.error e, s)
  | .ok () =>
    match s.streams.get stream with
    | none => some (.error (.unknownStream stream), s)
    | some state => do
      let total ← checkedSub s.totalBufferedSend state.bufferedSend
      let s := { s with streams := s.streams.remove stream, totalBufferedSend := total }
      match Frame.data stream flagRst [] with
      | .error e => some (.error e, s)
      | .ok frame => some (.ok (), (s.queueFrame frame).emit (.streamClosed stream))

def goAway (code : UInt32) : SessionCore :=
  if s.localGoAway || s.failed then s
  else ({ s with localGoAway := true }.queueFrame (Frame.goAway code)).closeAllStreams

/-- `now` is the monotonic sample in milliseconds. -/
def poll (now : Nat) : Option (Returned Unit) :=
  match s.ensureActive with
  | .error e => some (.error e, s)
  | .ok () =>
    let s := if s.dirty || s.lastActivityMs.isNone then
      { s with lastActivityMs := some now, dirty := false } else s
    match s.lastActivityMs with
    | none => none
    | some last =>
      if keepaliveIntervalMs ≤ now - last then
        let nonce := s.nextPingNonce
        let s := { s with nextPingNonce := nonce + 1 }
        match Frame.ping flagSyn nonce with
        | .error e => some (.error e, s)
        | .ok frame =>
          some (.ok (), { s.queueFrame frame with lastActivityMs := some now, dirty := false })
      else some (.ok (), s)

def flushBuffered (stream : UInt32) : Option (Returned Unit) :=
  match s.streams.get stream with
  | none => some (.error (.unknownStream stream), s)
  | some state =>
    match state.flush stream s.config.maxFrameLen.toNat with
    | none => none
    | some (.error e, state) => some (.error e, s.setStream stream state)
    | some (.ok (frames, drained, closeAfterFlush), state) => do
      let total ← checkedSub s.totalBufferedSend drained
      let s := (s.store stream state total).queueFrames frames
      let s ← s.removeClosed stream (closeAfterFlush && state.remoteWriteClosed)
      some (.ok (), s)

/-- The stream opening shared by `on_data` and `on_window_update`. The answer is `false`
when the stream was refused with a reset. -/
def acceptSyn (stream : UInt32) (sendWindow : Except YamuxError Nat) : Returned Bool :=
  if !s.validRemoteStreamId stream then
    (.error (.protocol "remote used a local-parity stream id"), s)
  else if s.streams.containsKey stream then
    (.error (.protocol "duplicate SYN for an existing stream"), s)
  else if s.config.maxStreams ≤ s.streams.len then
    let (result, s) := s.queueResetForUnknown stream
    (result.map (fun _ => false), s)
  else
    match sendWindow with
    | .error e => (.error e, s)
    | .ok window =>
      (.ok true, (s.setStream stream (.inbound s.config window)).emit (.incomingStream stream))

/-- `remove_stream` for an inbound RST, which announces only a tracked stream. -/
def onReset (stream : UInt32) : Option (Returned Unit) := do
  let s ← s.removeStream stream (s.streams.containsKey stream)
  some (.ok (), s)

/-- The end of `on_data` and `on_window_update`: note a FIN, then drop a stream closed
in both directions. -/
def finish (stream : UInt32) (flags : UInt16) (state : StreamState)
    (outputs : List YamuxOutput) : Option (Returned Unit) := do
  let remoteClosed := hasFlag flags flagFin && !state.remoteWriteClosed
  let state := if remoteClosed then { state with remoteWriteClosed := true } else state
  let s := s.setStream stream state
  let s := { s with pending := s.pending ++ outputs ++
    (if remoteClosed then [YamuxOutput.remoteWriteClosed stream] else []) }
  let s ← s.removeClosed stream (state.remoteWriteClosed && state.localWriteClosed)
  some (.ok (), s)

/-- The rest of `on_data`, on a stream that was inserted or was already tracked. -/
def onStreamData (frame : Frame) : Option (Returned Unit) :=
  let stream := frame.streamId
  match s.streams.get stream with
  | none => none
  | some state =>
    let state := state.noteAck frame.flags
    if state.remoteWriteClosed && !frame.payload.isEmpty then
      some (.error (.protocol "data after FIN"), s.setStream stream state)
    else
      match state.receive s.config stream frame.value.toNat with
      | none => none
      | some (.error e, state) => some (.error e, s.setStream stream state)
      | some (.ok (), state) =>
        s.finish stream frame.flags state
          (if frame.payload.isEmpty then [] else [.data stream frame.payload])

def onData (frame : Frame) : Option (Returned Unit) :=
  let stream := frame.streamId
  if hasFlag frame.flags flagRst then s.onReset stream
  else if hasFlag frame.flags flagSyn then
    match s.acceptSyn stream (.ok defaultReceiveWindow) with
    | (.error e, s) => some (.error e, s)
    | (.ok false, s) => some (.ok (), s)
    | (.ok true, s) => s.onStreamData frame
  else if !s.streams.containsKey stream then some (s.queueResetForUnknown stream)
  else s.onStreamData frame

/-- The rest of `on_window_update`, on a tracked stream whose window has been raised. -/
def onStreamCredit (frame : Frame) : Option (Returned Unit) :=
  let stream := frame.streamId
  match s.streams.get stream with
  | none => none
  | some state =>
    match (s.setStream stream (state.noteAck frame.flags)).flushBuffered stream with
    | none => none
    | some (.error e, s) => some (.error e, s)
    | some (.ok (), s) =>
      match s.streams.get stream with
      | none => some (.ok (), s)
      | some state => s.finish stream frame.flags state []

def onWindowUpdate (frame : Frame) : Option (Returned Unit) :=
  let stream := frame.streamId
  if hasFlag frame.flags flagRst then s.onReset stream
  else if hasFlag frame.flags flagSyn then
    let window := defaultReceiveWindow + frame.value.toNat
    match s.acceptSyn stream
      (if window ≤ u32Max then .ok window else .error (.windowOverflow stream)) with
    | (.error e, s) => some (.error e, s)
    | (.ok false, s) => some (.ok (), s)
    | (.ok true, s) => s.onStreamCredit frame
  else
    match s.streams.get stream with
    | none => some (s.queueResetForUnknown stream)
    | some state =>
      let window := state.sendWindow + frame.value.toNat
      if window ≤ u32Max then
        (s.setStream stream { state with sendWindow := window }).onStreamCredit frame
      else some (.error (.windowOverflow stream), s)

def onPing (frame : Frame) : Option (Returned Unit) :=
  if frame.flags = flagSyn then
    match Frame.ping flagAck frame.value with
    | .error e => some (.error e, s)
    | .ok pong => some (.ok (), s.queueFrame pong)
  else some (.ok (), s)

def onGoAway (code : UInt32) : SessionCore :=
  ({ s with remoteGoAway := true }.emit (.goAwayReceived code)).closeAllStreams

def processFrame (frame : Frame) : Option (Returned Unit) :=
  match frame.frameType with
  | .data => s.onData frame
  | .windowUpdate => s.onWindowUpdate frame
  | .ping => s.onPing frame
  | .goAway => some (.ok (), s.onGoAway frame.value)

def materializeDeferredControl : Option SessionCore :=
  match s.streams.entries.find? (fun e => e.2.hasDeferredControl) with
  | none => some s
  | some (stream, state) =>
    let (flags, state) := state.takeOpenFlag
    let credit := min state.pendingCredit u32Max
    if u32Max < state.receiveWindow + credit then none
    else
      let state := { state with
        pendingCredit := state.pendingCredit - credit
        receiveWindow := state.receiveWindow + credit }
      match Frame.windowUpdate stream flags (UInt32.ofNat credit) with
      | .error _ => none
      | .ok frame => some ((s.setStream stream state).queueFrame frame)

def popFront : Option YamuxOutput × SessionCore :=
  match s.pending with
  | [] => (none, s)
  | output :: pending => (some output, { s with pending := pending })

def pollOutput : Option (Option YamuxOutput × SessionCore) :=
  match s.pending with
  | output :: pending => some (some output, { s with pending := pending })
  | [] =>
    if !s.failed && !s.localGoAway && !s.remoteGoAway then do
      let s ← s.materializeDeferredControl
      some s.popFront
    else some s.popFront

def isIdle : Bool :=
  s.pending.isEmpty && s.streams.values.all (fun state => !state.hasDeferredControl)

end SessionCore

structure YamuxSession where
  core : SessionCore
  decoder : FrameDecoder

namespace YamuxSession

def fromValidatedConfig (role : YamuxRole) (config : ValidConfig) : YamuxSession where
  core := {
    role := role
    config := config
    streams := .empty
    nextStreamId := some (match role with | .client => 1 | .server => 2)
    pending := []
    totalBufferedSend := 0
    failed := false
    localGoAway := false
    remoteGoAway := false
    lastActivityMs := none
    dirty := false
    nextPingNonce := 1 }
  decoder := .new config.maxFrameLen

def new (role : YamuxRole) : YamuxSession := fromValidatedConfig role YamuxConfig.default

def withConfig (role : YamuxRole) (config : YamuxConfig) : Except YamuxError YamuxSession :=
  if window : config.receiveWindow.toNat < defaultReceiveWindow then
    .error (.invalidConfig "receive_window is below Yamux's initial 256 KiB credit")
  else if frame : config.maxFrameLen.toNat = 0 then
    .error (.invalidConfig "max_frame_len must be greater than zero")
  else .ok (fromValidatedConfig role
    { config with window_ok := Nat.le_of_not_lt window, frame_ok := Nat.pos_of_ne_zero frame })

variable (s : YamuxSession)

def goAway (code : UInt32) : YamuxSession :=
  if s.core.localGoAway || s.core.failed then s
  else ⟨s.core.goAway code, s.decoder.clear⟩

def failProtocol (e : YamuxError) : Except YamuxError Unit × YamuxSession :=
  (.error e, ⟨s.core.failProtocol, s.decoder.clear⟩)

/-- The loop of `handle_data`: one frame at a time until the decoder has none or a
frame is in error. -/
def handleLoop : Nat → YamuxSession → Option (Except YamuxError Unit × YamuxSession)
  | 0, _ => none
  | fuel + 1, s =>
    match s.decoder.nextFrame with
    | (.error e, decoder) => some (.error e, ⟨s.core, decoder⟩)
    | (.ok none, decoder) => some (.ok (), ⟨s.core, decoder⟩)
    | (.ok (some frame), decoder) =>
      match s.core.processFrame frame with
      | none => none
      | some (.error e, core) => some (.error e, ⟨core, decoder⟩)
      | some (.ok (), core) =>
        let core := { core with dirty := true }
        if core.remoteGoAway then some (.ok (), ⟨core, decoder.clear⟩)
        else handleLoop fuel ⟨core, decoder⟩

def handleFrames (bytes : List UInt8) : Option (Except YamuxError Unit × YamuxSession) :=
  let decoder := s.decoder.push bytes
  handleLoop (decoder.unread.length + 1) ⟨s.core, decoder⟩

def handleData (bytes : List UInt8) : Option (Except YamuxError Unit × YamuxSession) :=
  match s.core.ensureActive with
  | .error e => some (.error e, s)
  | .ok () =>
    match s.handleFrames bytes with
    | none => none
    | some (.error e, s) => some (s.failProtocol e)
    | some (.ok (), s) => some (.ok (), s)

end YamuxSession

end Yamux
