import WlanxVms.Bcaster.Reframe
import WlanxVms.Bcaster.Tables

/-!
# The stop message (`ci_stop_client`, `process_pkt`)

A client that stops has sent frames and then the bytes of `STOP_MSG`. `received` are the bytes that
`recv` stored for a descriptor during a run, and `stopped` the descriptors for which `process_pkt`
called `lisa_close_client`. `stepUnchecked` is the system whose `process_pkt` does not ask `match_end`.
-/

namespace WlanxVms
namespace Bcaster

/-- What a client has sent when `ci_stop_client` returns. -/
def stoppedStream (fs : List Frame) : List UInt8 := fs.flatMap Frame.encode ++ stopMsg

namespace Sys

def recvOutput (fd : Int) (s : Sys) : Act → List UInt8
  | .receiver (.part2 _ bs) => match s.receiver with
    | .found clfd .. => if clfd = fd then bs else []
    | _ => []
  | _ => []

/-- The bytes that were received from `fd`. -/
def received (fd : Int) (s : Sys) (acts : List Act) : List UInt8 := trace step (recvOutput fd) s acts

def closeOutput (s : Sys) : Act → List Int
  | .receiver .loop => match s.receiver with
    | .loop clfd clnum =>
      let c := s.buffers.client clnum
      if c.loopCond ∧ c.readExpected.pktReady ∧ matchEnd (c.readExpected.buffer.read c.readExpected.nextPkt stopMsg.length)
      then [clfd] else []
    | _ => []
  | _ => []

/-- The clients whose stop message `process_pkt` recognised. -/
def stopped (s : Sys) (acts : List Act) : List Int := trace step closeOutput s acts

/-- `process_pkt` without the check, up to the call of `lisa_cast` -/
def relayPkt (s : Sys) (clfd : Int) (clnum : Nat) : Sys :=
  { s with packetsReceived := s.packetsReceived + 1, receiver := .casting clfd clnum }

def loopUnchecked (s : Sys) : Option Sys :=
  match s.receiver with
  | .loop clfd clnum =>
    let c := s.buffers.client clnum
    if c.loopCond then
      let s := { s with buffers := s.buffers.setClient clnum c.readExpected }
      if c.readExpected.pktReady then some (s.relayPkt clfd clnum) else some s
    else some { s with buffers := s.buffers.setClient clnum c.relocate, receiver := .idle }
  | _ => none

def stepUnchecked (s : Sys) : Act → Option Sys
  | .receiver .loop => s.loopUnchecked
  | a => s.step a

/-- Each client whose stop message has arrived, and been worked on, was closed, and the packets go the way
that they go without the check. -/
structure StopProtocol (lp : Lisa) (acts : List Act) : Prop where
  closes : ∀ s fd fs, run step AnyStep (init lp) acts = some s → s.receiver = .idle →
    received fd (init lp) acts = stoppedStream fs → fd ∈ stopped (init lp) acts
  relays : run stepUnchecked AnyStep (init lp) acts = run step AnyStep (init lp) acts

variable {s : Sys} {acts : List Act}

theorem closeOutput_eq_nil (s : Sys) (a : Act) : closeOutput s a = [] := by
  unfold closeOutput
  split
  · split
    · simp only [matchEnd_eq_false, Bool.false_eq_true, and_false, if_false]
    · rfl
  · rfl

theorem relayPkt_eq (s : Sys) (clfd : Int) (clnum : Nat) : s.relayPkt clfd clnum = s.processPkt clfd clnum :=
  (s.processPkt_eq clfd clnum).symm

theorem loopUnchecked_eq (s : Sys) : s.loopUnchecked = s.loop := by
  unfold loopUnchecked loop
  cases s.receiver <;> simp only [relayPkt_eq]

theorem stepUnchecked_eq (s : Sys) (a : Act) : s.stepUnchecked a = s.step a := by
  unfold stepUnchecked
  split
  · exact s.loopUnchecked_eq
  · rfl

/-- Every packet is relayed, and the protocol is kept only until a client stops: `process_pkt` never
recognises the message. -/
theorem stopProtocol_iff (lp : Lisa) (acts : List Act) :
    StopProtocol lp acts ↔ ∀ s fd fs, run step AnyStep (init lp) acts = some s → s.receiver = .idle →
      received fd (init lp) acts ≠ stoppedStream fs := by
  have hnone : stopped (init lp) acts = [] := trace_eq_nil closeOutput_eq_nil _ _
  constructor
  · intro h s fd fs hrun hidle hrecv
    have hmem := h.closes s fd fs hrun hidle hrecv
    rw [hnone] at hmem
    exact List.not_mem_nil hmem
  · intro h
    refine ⟨fun s fd fs hrun hidle hrecv => absurd hrecv (h s fd fs hrun hidle), ?_⟩
    rw [show stepUnchecked = step from funext fun s => funext (stepUnchecked_eq s)]

/-- One client that connects, and stops before it sends any frame. -/
theorem not_stopProtocol : ¬ ∀ acts, StopProtocol initListener acts := by
  intro h
  let acts : List Act := acceptCall 4 ++ [.receiver .readCount, .receiver .part1Pre, .receiver (.part1Post (some [4])),
    .receiver .clientForFd, .receiver (.part2 17 stopMsg), .receiver .loop, .receiver .loop]
  have hidle : ∃ s, run step AnyStep (init initListener) acts = some s ∧ s.receiver = .idle := by
    refine ⟨_, Option.some_get (by decide +kernel) |>.symm, rfl⟩
  obtain ⟨s, hrun, hidle⟩ := hidle
  have hmem := (h acts).closes s 4 [] hrun hidle (by decide +kernel)
  exact absurd hmem (by decide +kernel)

end Sys
end Bcaster
end WlanxVms
