import WpaSupplicant.FairProgress
import WpaSupplicant.PendingWork

/-!
# Every request is answered

In an infinite run in which wpa_ex, the supplicant and the port get their turns, and
in which notifications and interruptions stop at some time, every request that was
accepted gets its reply, unless wpa_ex ends.

* `step_progressed`: no action undoes what has been done for a request;
* `Fair.advances`: no action raises the rank, and the next move of the helpful party
  lowers it;
* `eventually_replied`: the reply comes.
-/

namespace WpaSupplicant

open StepSystem (Run Schedule)

namespace System

open WpaEx (sends receives writes unsolicited solicited)

/-- Who has to move for a request to get on. -/
inductive Party
  | bridge
  | supplicant
  | port
deriving DecidableEq

/-- The action is a move of the party: a call on which wpa_ex goes on, an answer, a delivery. -/
def Moves (s : System) (a : Action) : Party → Prop
  | .bridge =>
      match a with
      | .syscall sc => ((s.bridge.step sc).any fun b => b.point != s.bridge.point) = true
      | _ => False
  | .supplicant => answers [a] ≠ []
  | .port => delivered [a] ≠ []

instance (s : System) (a : Action) (party : Party) : Decidable (Moves s a party) :=
  match party, a with
  | .bridge, .syscall _ => inferInstanceAs (Decidable (_ = true))
  | .bridge, .call _ _ | .bridge, .giveUp _ | .bridge, .answer _ | .bridge, .notify _
  | .bridge, .deliver _ | .bridge, .exitStatus _ => .isFalse id
  | .supplicant, a => inferInstanceAs (Decidable (answers [a] ≠ []))
  | .port, a => inferInstanceAs (Decidable (delivered [a] ≠ []))

/-- What is still to be done for some requests. -/
structure Left where
  bytes : Nat
  requests : Nat
  answers : Nat
  messages : Nat
  frames : Nat
  deliveries : Nat

namespace Left

/-- An answer is a message to be received, written and delivered. -/
def total (l : Left) : Nat :=
  l.bytes + l.requests + 4 * l.answers + l.messages + l.frames + l.deliveries

/-- Nothing has been added. -/
structure Le (l' l : Left) : Prop where
  bytes : l'.bytes ≤ l.bytes
  requests : l'.requests ≤ l.requests
  answers : l'.answers ≤ l.answers
  messages : l'.messages ≤ l.messages
  frames : l'.frames ≤ l.frames
  deliveries : l'.deliveries ≤ l.deliveries

/-- Something has been done. -/
def Less (l' l : Left) : Prop :=
  l'.bytes < l.bytes ∨ l'.requests < l.requests ∨ l'.messages < l.messages ∨
    l'.frames < l.frames ∨ l'.deliveries < l.deliveries

variable {l' l : Left}

theorem Le.total_le (h : Le l' l) : l'.total ≤ l.total := by
  obtain ⟨hbytes, hrequests, hanswers, hmessages, hframes, hdeliveries⟩ := h
  unfold total
  omega

theorem Le.total_lt (h : Le l' l) (hless : Less l' l) : l'.total < l.total := by
  obtain ⟨hbytes, hrequests, hanswers, hmessages, hframes, hdeliveries⟩ := h
  unfold total
  rcases hless with hless | hless | hless | hless | hless <;> omega

/-- An answer that comes adds a message, which is less than the answer to come. -/
theorem total_lt_of_answer
    (hbytes : l'.bytes ≤ l.bytes) (hrequests : l'.requests ≤ l.requests)
    (hanswers : l'.answers < l.answers) (hmessages : l'.messages ≤ l.messages + 1)
    (hframes : l'.frames ≤ l.frames + 1) (hdeliveries : l'.deliveries ≤ l.deliveries + 1) :
    l'.total < l.total := by
  unfold total
  omega

end Left

/-- What is still to be done for the first `k` requests. -/
def left (k : Nat) (hist : List Action) (s : System) : Left where
  bytes := bytesLeft k s
  requests := k - (sends (syscalls hist)).length
  answers := k - (answers hist).length
  messages := ahead k hist - (receives (syscalls hist)).length
  frames := ahead k hist - (writes (syscalls hist)).length
  deliveries := ahead k hist - (delivered hist).length

/-- How far wpa_ex is from moving data. -/
def distance (p : Point) (socket : List Binary) : Nat :=
  match p with
  | .poll => 2
  | .pendingWpa => if socket = [] then 3 else 1
  | .selectReply _ => 1
  | _ => 0

def position (s : System) : Nat :=
  distance s.bridge.point s.socket

def rank (k : Nat) (hist : List Action) (s : System) : Nat :=
  4 * (left k hist s).total + if Written k hist then 0 else position s

/-- The reply is waited for, and there is nothing on the socket. -/
def starved (s : System) : Bool :=
  match s.bridge.point with
  | .selectReply _ => s.socket.isEmpty
  | _ => false

/-- The party whose next move lowers the rank. -/
def helpful (k : Nat) (hist : List Action) (s : System) : Party :=
  if Written k hist then .port
  else if s.starved then .supplicant
  else .bridge

variable {U : GraphemeTable} {self : Pid} {port : Port} {manager : Pid}
  {hist : List Action} {s s' : System} {a : Action} {k : Nat}

/-- What has been done stays done. -/
structure Progressed (k : Nat) (hist : List Action) (s : System) (hist' : List Action)
    (s' : System) : Prop where
  bytes : bytesLeft k s' ≤ bytesLeft k s
  sends : (sends (syscalls hist)).length ≤ (WpaEx.sends (syscalls hist')).length
  answers : (answers hist).length ≤ (System.answers hist').length
  receives : (receives (syscalls hist)).length ≤ (WpaEx.receives (syscalls hist')).length
  writes : (writes (syscalls hist)).length ≤ (WpaEx.writes (syscalls hist')).length
  delivered : (delivered hist).length ≤ (System.delivered hist').length

section Progress

theorem distance_le (p : Point) (socket : List Binary) : distance p socket ≤ 3 := by
  unfold distance
  split
  · omega
  · split <;> omega
  · omega
  · omega

/-- A datagram that comes brings no point of the program further away. -/
theorem distance_append_le (p : Point) (socket : List Binary) (d : Binary) :
    distance p (socket ++ [d]) ≤ distance p socket := by
  cases p with
  | pendingWpa =>
      rw [distance, if_neg (by simp), distance]
      split <;> omega
  | _ =>
      exact le_rfl

/-- The bytes that an action of wpa_ex takes from stdin. -/
def input (a : Action) : Binary :=
  (syscalls [a]).flatMap Syscall.input

/-- Commands come with their input, and reading takes from it. -/
theorem step_bytesLeft
    (hk : k ≤ (commands s.effects).length) (h : s.step U self a = some s') :
    bytesLeft k s' = bytesLeft k s - (input a).length := by
  have hcallback (t : System) (result : Except Raise Callback)
      (hstdin : t.stdin = s.stdin) (heffects : t.effects = s.effects)
      (hs' : s' = t.absorb result) : bytesLeft k s' = bytesLeft k s := by
    obtain ⟨effects, heffects', hstdin', _⟩ := t.exists_commands_absorb result
    rw [bytesLeft, bytesLeft, hs', heffects', hstdin', hstdin, heffects, commands_append,
      List.take_append_of_le_length hk, frames_append]
    simp only [List.length_append]
    omega
  cases a with
  | call client call =>
      obtain ⟨state, _, hs'⟩ := step_call h
      exact hcallback s _ rfl rfl hs'
  | deliver message =>
      obtain ⟨state, rest, _, _, hs'⟩ := step_deliver h
      exact hcallback { s with stdout := rest } _ rfl rfl hs'
  | giveUp | notify =>
      cases h
      rfl
  | answer d =>
      obtain ⟨_, _, _, rfl⟩ := step_answer h
      rfl
  | exitStatus status =>
      obtain ⟨_, rfl⟩ := step_exitStatus h
      rfl
  | syscall sc =>
      obtain ⟨_, _, hstdin, _, _, _, _, heffects⟩ := step_syscall h
      have hinput : input (.syscall sc) = sc.input := by
        simp [input, syscalls]
      rw [bytesLeft, bytesLeft, heffects, hinput, hstdin, List.length_append]
      omega

/-- No action undoes what has been done. -/
theorem step_progressed
    (hist : List Action) (hk : k ≤ (commands s.effects).length) (h : s.step U self a = some s') :
    Progressed k hist s (hist ++ [a]) s' where
  bytes := by
    rw [step_bytesLeft hk h]
    exact Nat.sub_le _ _
  sends := by
    rw [syscalls_append, WpaEx.sends_append, List.length_append]
    exact Nat.le_add_right _ _
  answers := by
    rw [answers_append, List.length_append]
    exact Nat.le_add_right _ _
  receives := by
    rw [syscalls_append, WpaEx.receives_append, List.length_append]
    exact Nat.le_add_right _ _
  writes := by
    rw [syscalls_append, WpaEx.writes_append, List.length_append]
    exact Nat.le_add_right _ _
  delivered := by
    rw [delivered_append, List.length_append]
    exact Nat.le_add_right _ _

theorem Progressed.left_le
    {hist' : List Action} (h : Progressed k hist s hist' s')
    (hahead : ahead k hist' = ahead k hist) :
    Left.Le (left k hist' s') (left k hist s) where
  bytes := h.bytes
  requests := Nat.sub_le_sub_left h.sends k
  answers := Nat.sub_le_sub_left h.answers k
  messages := by
    rw [left, left, hahead]
    exact Nat.sub_le_sub_left h.receives _
  frames := by
    rw [left, left, hahead]
    exact Nat.sub_le_sub_left h.writes _
  deliveries := by
    rw [left, left, hahead]
    exact Nat.sub_le_sub_left h.delivered _

theorem Written.progressed
    {hist' : List Action} (hwritten : Written k hist) (h : Progressed k hist s hist' s')
    (hahead : ahead k hist' = ahead k hist) :
    Written k hist' :=
  ⟨hwritten.1.trans h.answers, hahead ▸ hwritten.2.trans h.writes⟩

section Ahead

variable (hrun : Run (step U self) (Admissible U) (start port manager) hist s)

theorem ahead_of_arrivals_eq_nil (h : arrivals [a] = []) :
    ahead k (hist ++ [a]) = ahead k hist := by
  rw [ahead, arrivals_append, h, List.append_nil, ahead]

include hrun

/-- Messages that come after the `k`-th reply are not ahead of it. -/
theorem ahead_of_le_answers (hanswers : k ≤ (answers hist).length) :
    ahead k (hist ++ [a]) = ahead k hist := by
  rw [ahead, arrivals_append, upTo_append_of_le (by rwa [countP_arrivals hrun]), ahead]

end Ahead

end Progress

section Counts

variable (hist : List Action) (sc : Syscall)

theorem length_sends_concat :
    (sends (syscalls (hist ++ [.syscall sc]))).length =
      (sends (syscalls hist)).length + sc.sent.length := by
  simp [syscalls, sends]

theorem length_receives_concat :
    (receives (syscalls (hist ++ [.syscall sc]))).length =
      (receives (syscalls hist)).length + sc.received.length := by
  simp [syscalls, receives]

theorem length_writes_concat :
    (writes (syscalls (hist ++ [.syscall sc]))).length =
      (writes (syscalls hist)).length + sc.written.length := by
  simp [syscalls, writes]

end Counts

section Steps

/-- What a step is to do: to lower the rank, or to leave things to the helpful party. -/
def Advances (k : Nat) (hist : List Action) (s : System) (a : Action) (s' : System) :
    Prop :=
  rank k (hist ++ [a]) s' < rank k hist s ∨
    rank k (hist ++ [a]) s' ≤ rank k hist s ∧
      helpful k (hist ++ [a]) s' = helpful k hist s ∧ ¬ Moves s a (helpful k hist s)

/-- Work that is done outweighs the way that wpa_ex goes. -/
theorem advances_of_total_lt
    (h : (left k (hist ++ [a]) s').total < (left k hist s).total) :
    Advances k hist s a s' := by
  left
  have hposition : position s' ≤ 3 := distance_le _ _
  unfold rank
  split <;> split <;> omega

/-- With nothing done, wpa_ex gets closer to moving data. -/
theorem advances_of_position_lt
    (hle : (left k (hist ++ [a]) s').total ≤ (left k hist s).total)
    (hunwritten : ¬ Written k hist) (hlt : position s' < position s) :
    Advances k hist s a s' := by
  left
  unfold rank
  rw [if_neg hunwritten]
  split <;> omega

variable (hrun : Run (step U self) (Admissible U) (start port manager) hist s)
  (hk : k ≤ (commands s.effects).length) (h : s.step U self a = some s')
include hrun hk h

/-- Once the reply is written the port has to deliver it. -/
theorem advances_of_written
    (hwritten : Written k hist) (hreplies : (replies s.effects).length < k) :
    Advances k hist s a s' := by
  have hahead := ahead_of_le_answers (a := a) hrun hwritten.1
  have hprogressed := step_progressed hist hk h
  have hwritten' := hwritten.progressed hprogressed hahead
  have hle := hprogressed.left_le hahead
  have hleft := delivered_lt_of_written hrun hwritten hreplies
  by_cases hdeliver : delivered [a] = []
  · right
    unfold rank helpful
    simp only [hwritten, hwritten', if_true, Nat.add_zero]
    exact ⟨Nat.mul_le_mul_left 4 hle.total_le, trivial, not_not_intro hdeliver⟩
  · refine advances_of_total_lt (hle.total_lt (.inr (.inr (.inr (.inr ?_)))))
    have hone := List.length_pos_iff.mpr hdeliver
    simp only [left, hahead, delivered_append, List.length_append]
    omega

section Unwritten

variable (hunwritten : ¬ Written k hist)
include hunwritten

omit hrun hk h in
/-- With the same messages written and answers come, the reply is still not written. -/
theorem not_written_snoc
    (hahead : ahead k (hist ++ [a]) = ahead k hist)
    (hanswers : answers [a] = [] ∨ k ≤ (answers hist).length)
    (hwrites : writes (syscalls [a]) = []) :
    ¬ Written k (hist ++ [a]) := by
  rintro ⟨hcount, hle⟩
  rw [hahead, syscalls_append, WpaEx.writes_append, hwrites, List.append_nil] at hle
  refine hunwritten ⟨?_, hle⟩
  rcases hanswers with hnone | henough
  · rwa [answers_append, hnone, List.append_nil] at hcount
  · exact henough

omit hrun in
/-- Calls and deliveries leave wpa_ex and its socket alone. -/
theorem advances_of_outside
    (hsyscalls : syscalls [a] = []) (harrivals : arrivals [a] = [])
    (hanswers : answers [a] = []) :
    Advances k hist s a s' := by
  have hahead : ahead k (hist ++ [a]) = ahead k hist := ahead_of_arrivals_eq_nil harrivals
  have hle := (step_progressed hist hk h).left_le hahead
  have hunwritten' := not_written_snoc hunwritten hahead (.inl hanswers)
    (by rw [hsyscalls]; rfl)
  have hsame : s'.bridge = s.bridge ∧ s'.socket = s.socket := by
    cases a with
    | call client call =>
        obtain ⟨_, _, rfl⟩ := step_call h
        simp
    | giveUp client =>
        cases h
        exact ⟨rfl, rfl⟩
    | deliver message =>
        obtain ⟨_, _, _, _, rfl⟩ := step_deliver h
        simp
    | exitStatus status =>
        obtain ⟨_, rfl⟩ := step_exitStatus h
        exact ⟨rfl, rfl⟩
    | answer | notify =>
        cases harrivals
    | syscall =>
        cases hsyscalls
  have hposition : position s' = position s := by
    rw [position, position, hsame.1, hsame.2]
  have hstarved : s'.starved = s.starved := by
    rw [starved, starved, hsame.1, hsame.2]
  right
  unfold rank helpful
  simp only [if_neg hunwritten, if_neg hunwritten', hposition, hstarved]
  refine ⟨Nat.add_le_add_right (Nat.mul_le_mul_left 4 hle.total_le) _, trivial, ?_⟩
  intro hmoves
  split at hmoves
  · exact hmoves hanswers
  · cases a with
    | syscall =>
        cases hsyscalls
    | _ =>
        exact hmoves

/-- An answer up to the `k`-th is work done; a later one is no business of this request. -/
theorem advances_of_answer
    {d : Binary} (ha : a = .answer d) (halive : ¬ s.bridge.Exited) :
    Advances k hist s a s' := by
  subst ha
  obtain ⟨request, rest, _, rfl⟩ := step_answer h
  have hprogressed := step_progressed hist hk h
  by_cases hanswers : (answers hist).length < k
  · refine advances_of_total_lt ?_
    have hbefore := ahead_of_answers_lt hrun hanswers
    have hahead : ahead k (hist ++ [.answer d]) ≤ ahead k hist + 1 := by
      rw [hbefore]
      have hchannels := run_channels (fun _ _ => shortArrivals_of_admissible) hrun
      refine (upTo_le_length _ _).trans ?_
      rw [arrivals_append, hchannels.arrivals_eq]
      simp [arrivals, Nat.add_assoc]
    have hmore {x y : Nat} (hle : x ≤ y) :
        ahead k (hist ++ [.answer d]) - y ≤ ahead k hist - x + 1 := by
      omega
    refine Left.total_lt_of_answer hprogressed.bytes
      (Nat.sub_le_sub_left hprogressed.sends k) ?_ (hmore hprogressed.receives)
      (hmore hprogressed.writes) (hmore hprogressed.delivered)
    have hcount : (answers (hist ++ [.answer d])).length = (answers hist).length + 1 := by
      simp [answers]
    simp only [left, hcount]
    omega
  · rw [Nat.not_lt] at hanswers
    have hahead : ahead k (hist ++ [.answer d]) = ahead k hist :=
      ahead_of_le_answers hrun hanswers
    have hle := hprogressed.left_le hahead
    have hunwritten' := not_written_snoc hunwritten hahead (.inr hanswers) rfl
    have hstarved : s.starved = false := by
      by_contra hstarved
      rw [Bool.not_eq_false] at hstarved
      unfold starved at hstarved
      split at hstarved
      · next q hpoint =>
          exact hunwritten (written_of_drained hrun halive (by simp [WpaEx.inHand, hpoint])
            (List.isEmpty_iff.mp hstarved) hanswers)
      · cases hstarved
    have hstarved' : starved { s with unanswered := rest, socket := s.socket ++ [d] } =
        false := by
      unfold starved
      split <;> simp
    have hposition : position { s with unanswered := rest, socket := s.socket ++ [d] } ≤
        position s :=
      distance_append_le _ _ _
    right
    unfold rank helpful
    simp only [if_neg hunwritten, if_neg hunwritten', hstarved, hstarved',
      Bool.false_eq_true, if_false]
    exact ⟨Nat.add_le_add (Nat.mul_le_mul_left 4 hle.total_le) hposition, trivial, id⟩

/-- A call on which wpa_ex goes on moves data of this request, or leads towards it. -/
theorem advances_of_syscall
    {sc : Syscall} (ha : a = .syscall sc) (htruth : Truthful s a)
    (hcalm : sc ≠ .read .interrupted) (halive' : ¬ s'.bridge.Exited)
    (haccepted : k ≤ (accepted hist).length) :
    Advances k hist s a s' := by
  subst ha
  have hchannels := run_channels (fun _ _ => shortArrivals_of_admissible) hrun
  obtain ⟨_, hbridge, hstdin, hsocket, _, _, _, heffects⟩ := step_syscall h
  have halive : ¬ s.bridge.Exited := WpaEx.not_exited_of_step hbridge
  have hahead : ahead k (hist ++ [.syscall sc]) = ahead k hist := ahead_of_arrivals_eq_nil rfl
  have hle := (step_progressed hist hk h).left_le hahead
  have hone : syscalls [.syscall sc] = [sc] := rfl
  have hread (hinput : sc.input ≠ []) (hleft : 0 < bytesLeft k s) :
      Advances k hist s (.syscall sc) s' := by
    refine advances_of_total_lt (hle.total_lt (.inl ?_))
    have hlength := List.length_pos_iff.mpr hinput
    have hbytes := step_bytesLeft hk h
    rw [input, hone, List.flatMap_singleton] at hbytes
    simp only [left]
    omega
  have hsend (hsent : sc.sent.length = 1) (hlt : (sends (syscalls hist)).length < k) :
      Advances k hist s (.syscall sc) s' := by
    refine advances_of_total_lt (hle.total_lt (.inr (.inl ?_)))
    simp only [left, length_sends_concat, hsent]
    omega
  have hreceive (hreceived : sc.received.length = 1) (hhand : s.bridge.inHand = []) :
      Advances k hist s (.syscall sc) s' := by
    have hne : s.socket ≠ [] := by
      intro hnil
      rw [hnil, eq_comm, List.append_eq_nil_iff] at hsocket
      simp [hsocket.1] at hreceived
    have hlt := receives_lt_of_unwritten hrun hunwritten halive hhand hne
    refine advances_of_total_lt (hle.total_lt (.inr (.inr (.inl ?_))))
    simp only [left, hahead, length_receives_concat, hreceived]
    omega
  have hwrite (hwritten : sc.written.length = 1) (hhand : s.bridge.inHand ≠ []) :
      Advances k hist s (.syscall sc) s' := by
    have hlt := writes_lt_of_unwritten hrun hunwritten halive hhand
    refine advances_of_total_lt (hle.total_lt (.inr (.inr (.inr (.inl ?_)))))
    simp only [left, hahead, length_writes_concat, hwritten]
    omega
  have hcloser (hlt : position s' < position s) : Advances k hist s (.syscall sc) s' :=
    advances_of_position_lt hle.total_le hunwritten hlt
  have haligned := hchannels.aligned
  unfold position at hcloser
  generalize hb : s.bridge = b at hbridge hcloser haligned
  generalize hb' : s'.bridge = b' at hbridge hcloser
  cases WpaEx.step_cases hbridge with
  | again hquiet _ =>
      obtain ⟨hsent, hreceived, hinput, _, hwritten⟩ := hquiet
      rw [hreceived, List.nil_append] at hsocket
      have hsame : position s' = position s ∧ s'.starved = s.starved := by
        simp [position, starved, hb, hb', hsocket]
      have hunwritten' := not_written_snoc hunwritten hahead (.inl rfl)
        (by simp [hone, writes, hwritten])
      right
      unfold rank helpful
      simp only [if_neg hunwritten, if_neg hunwritten', hsame.1, hsame.2]
      refine ⟨Nat.add_le_add_right (Nat.mul_le_mul_left 4 hle.total_le) _, trivial, ?_⟩
      intro hmoves
      split at hmoves
      · exact hmoves rfl
      · simp [Moves, hb, hbridge] at hmoves
  | fails e _ _ =>
      exact absurd ⟨e, congrArg WpaEx.point hb'⟩ halive'
  | endOfFile | shortWrite =>
      exact absurd ⟨_, congrArg WpaEx.point hb'⟩ halive'
  | readInterrupted =>
      exact absurd rfl hcalm
  | polled b erl wpa =>
      obtain ⟨hany, _, hwpa⟩ := htruth
      refine hcloser ?_
      have hsocket' : s'.socket = s.socket := hsocket.symm
      cases erl
      · obtain rfl : wpa = true := by simpa using hany
        simp [WpaEx.leaveErl, distance, hsocket', hwpa]
      · simp [distance]
  | pending b ready =>
      refine hcloser ?_
      have hsocket' : s'.socket = s.socket := hsocket.symm
      have htruth : ready = true ↔ s.socket ≠ [] := htruth
      cases ready
      · have hnil : s.socket = [] := by simpa using htruth
        simp [distance, hnil]
      · have hne : s.socket ≠ [] := by simpa using htruth
        simp [distance, hne]
  | selected b q =>
      exact hcloser (by simp [distance])
  | read b wpaReady input hinput =>
      have hlt := sends_lt_of_unwritten hrun hunwritten halive
        (by rw [hb]; rfl) (by rw [hb]; rfl)
      refine hread ?_ (bytesLeft_pos hrun halive hlt haccepted (by rw [hb]; exact haligned)
        (by rw [hb]; rfl))
      intro hnil
      simp [Syscall.input] at hnil
      simp [hnil] at hinput
  | sent b q =>
      exact hsend rfl (sends_lt_of_unwritten hrun hunwritten halive
        (by rw [hb]; rfl) (by rw [hb]; rfl))
  | notification | reply | message =>
      exact hreceive rfl (by rw [hb]; rfl)
  | wroteNotification | wroteReply | wroteMessage =>
      exact hwrite (by simp [Syscall.written]) (by rw [hb]; simp)

end Unwritten

end Steps

section Fairness

/-- wpa_ex can get on with its next system call. -/
def ready (s : System) : Bool :=
  match s.bridge.point with
  | .poll => !s.stdin.isEmpty || !s.socket.isEmpty
  | .readErl _ => !s.stdin.isEmpty
  | .selectReply _ | .recvReply _ | .recvWpa => !s.socket.isEmpty
  | .exited _ => false
  | _ => true

/--
The parties get their turns: wpa_ex while it can get on, the supplicant while a
request is unanswered, the port while a whole frame stands on stdout.  From some time
on there are no notifications, and no `read` is interrupted.
-/
structure Fair
    {U : GraphemeTable} {pid : Pid} {opened : Port} {manager : Pid}
    (r : Schedule (step U pid) (start opened manager)) : Prop where
  admissible : ∀ n, Admissible U (r.state n) (r.label n)
  truthful : ∀ n, Truthful (r.state n) (r.label n)
  bridge : ∀ n, (r.state n).ready → ∃ m, n ≤ m ∧ Moves (r.state m) (r.label m) .bridge
  supplicant : ∀ n, (r.state n).unanswered ≠ [] →
    ∃ m, n ≤ m ∧ Moves (r.state m) (r.label m) .supplicant
  port : ∀ n, (r.state n).server.isSome → (unframe? (r.state n).stdout).isSome →
    ∃ m, n ≤ m ∧ Moves (r.state m) (r.label m) .port
  calm : ∃ start, ∀ n, start ≤ n →
    (∀ d, r.label n ≠ .notify d) ∧ r.label n ≠ .syscall (.read .interrupted)

section Helpful

variable (hrun : Run (step U self) (Admissible U) (start port manager) hist s)
  (halive : ¬ s.bridge.Exited)
include hrun halive

theorem server_isSome : s.server.isSome := by
  obtain ⟨_, _, hlives⟩ := run_served hrun
  exact hlives.resolve_left halive

/-- Unless it waits for the supplicant, wpa_ex can get on. -/
theorem ready_of_unwritten
    (hfed : Fed s) (hk : k ≤ (accepted hist).length) (hunwritten : ¬ Written k hist)
    (hstarved : s.starved = false) :
    s.ready := by
  have hserver := server_isSome hrun halive
  have hchannels := run_channels (fun _ _ => shortArrivals_of_admissible) hrun
  have haligned := hchannels.aligned
  unfold ready
  unfold Fed at hfed
  unfold starved at hstarved
  unfold WpaEx.Aligned at haligned
  split
  · next hpoint =>
      simp only [hpoint] at haligned
      have hlt := sends_lt_of_unwritten hrun hunwritten halive
        (by simp [WpaEx.awaited, hpoint]) (by simp [WpaEx.inHand, hpoint])
      have hleft := bytesLeft_pos hrun halive hlt hk haligned
        (by simp [WpaEx.unsent, hpoint])
      have hle := length_frames_take_le k (commands s.effects)
      have hne : s.stdin ≠ [] := by
        intro hnil
        rw [bytesLeft, hnil, List.length_nil] at hleft
        omega
      simp [hne]
  · next hpoint =>
      simp only [hpoint] at hfed
      have hne : s.stdin ≠ [] := by
        refine hfed.resolve_right fun hnone => ?_
        simp [Option.isNone_iff_eq_none.mp hnone] at hserver
      simp [hne]
  · next hpoint =>
      simpa [hpoint] using hstarved
  · next hpoint =>
      simpa [hpoint] using hfed
  · next hpoint =>
      simpa [hpoint] using hfed
  · next e hpoint =>
      exact absurd ⟨e, hpoint⟩ halive
  · rfl

end Helpful

variable {r : Schedule (step U self) (start port manager)}

theorem accepted_isPrefix {n m : Nat} (h : n ≤ m) :
    accepted (r.history n) <+: accepted (r.history m) := by
  induction m, h using Nat.le_induction with
  | base =>
      exact List.prefix_rfl
  | succ m _ ih =>
      rw [r.history_succ, accepted_append]
      exact ih.trans (List.prefix_append _ _)

/-- The party that is to move gets its turn. -/
theorem Fair.helpful_moves
    (hr : Fair r) {n : Nat} (hk : k ≤ (accepted (r.history n)).length)
    (halive : ¬ (r.state n).bridge.Exited)
    (hreplies : (replies (r.state n).effects).length < k) :
    ∃ m, n ≤ m ∧
      Moves (r.state m) (r.label m) (helpful k (r.history n) (r.state n)) := by
  have hrun := r.run_of hr.admissible n
  have hfed := run_fed (r.run_of hr.truthful n)
  unfold helpful
  split
  · next hwritten =>
      have hleft := delivered_lt_of_written hrun hwritten hreplies
      exact hr.port n (server_isSome hrun halive)
        (isSome_unframe?_stdout hrun (hleft.trans_le hwritten.2))
  · next hunwritten =>
      split
      · next hstarved =>
          refine hr.supplicant n ?_
          unfold starved at hstarved
          split at hstarved
          · next q hpoint =>
              exact unanswered_ne_nil hrun halive (by simp [WpaEx.awaited, hpoint])
                (List.isEmpty_iff.mp hstarved)
          · cases hstarved
      · next hstarved =>
          exact hr.bridge n (ready_of_unwritten hrun halive hfed hk hunwritten
            (by simpa using hstarved))

/-- Every action of a calm run advances a request that is not over. -/
theorem Fair.advances
    (hr : Fair r) {n : Nat} (hk : k ≤ (accepted (r.history n)).length)
    (hcalm : (∀ d, r.label n ≠ .notify d) ∧ r.label n ≠ .syscall (.read .interrupted))
    (halive : ¬ (r.state n).bridge.Exited) (halive' : ¬ (r.state (n + 1)).bridge.Exited)
    (hreplies : (replies (r.state n).effects).length < k) :
    Advances k (r.history n) (r.state n) (r.label n) (r.state (n + 1)) := by
  have hrun := r.run_of hr.admissible n
  have hstep := r.next n
  have htruth := hr.truthful n
  have hcommands : k ≤ (commands (r.state n).effects).length := by
    obtain ⟨_, hserved, _⟩ := run_served hrun
    have hencoded := congrArg List.length hserved.encoded
    rw [List.length_map, List.length_map] at hencoded
    omega
  by_cases hwritten : Written k (r.history n)
  · exact advances_of_written hrun hcommands hstep hwritten hreplies
  · cases hlabel : r.label n with
    | notify d =>
        exact absurd hlabel (hcalm.1 d)
    | answer d =>
        rw [hlabel] at hstep
        exact advances_of_answer hrun hcommands hstep hwritten rfl halive
    | syscall sc =>
        rw [hlabel] at hstep htruth
        refine advances_of_syscall hrun hcommands hstep hwritten rfl htruth ?_ halive' hk
        rintro rfl
        exact hcalm.2 hlabel
    | call | giveUp | deliver | exitStatus =>
        rw [hlabel] at hstep
        exact advances_of_outside hcommands hstep hwritten rfl rfl rfl

/-- In a fair run as many replies come as requests have been accepted. -/
theorem Fair.eventually_length_replies
    (hr : Fair r) {n : Nat} (hk : k < (accepted (r.history n)).length) :
    ∃ m, k < (replies (r.state m).effects).length ∨ (r.state m).bridge.Exited := by
  obtain ⟨calm, hcalm⟩ := hr.calm
  refine Schedule.eventually_of_helpful
    (fun m => rank (k + 1) (r.history m) (r.state m))
    (fun m => helpful (k + 1) (r.history m) (r.state m))
    (fun m party => Moves (r.state m) (r.label m) party) (max n calm) ?_ ?_
  · intro m hm hgoal hgoal'
    rw [not_or, Nat.not_lt] at hgoal hgoal'
    have hk' := (accepted_isPrefix (r := r) ((le_max_left n calm).trans hm)).length_le
    have hadvances := hr.advances (k := k + 1) (by omega)
      (hcalm m ((le_max_right n calm).trans hm)) hgoal.2 hgoal'.2 (by omega)
    rw [r.history_succ]
    exact hadvances
  · intro m hm hgoal
    rw [not_or, Nat.not_lt] at hgoal
    have hk' := (accepted_isPrefix (r := r) ((le_max_left n calm).trans hm)).length_le
    exact hr.helpful_moves (by omega) hgoal.2 (by omega)

/-- The reply in the place of a request goes to its client. -/
theorem reply_of_length
    (hadmissible : ∀ n, Admissible U (r.state n) (r.label n)) {n m : Nat} {client : From}
    {command : Term} (hk : (accepted (r.history n))[k]? = some (client, command))
    (hm : k < (replies (r.state m).effects).length) :
    ∃ value, (replies (r.state m).effects)[k]? = some (client, value) := by
  rcases h : (replies (r.state m).effects)[k] with ⟨client', value⟩
  have hreply : (replies (r.state m).effects)[k]? = some (client', value) := by
    rw [List.getElem?_eq_getElem hm, h]
  obtain ⟨command', _, _, haccepted, _⟩ := run_answeredBy (r.run_of hadmissible m) hreply
  have hsame : client' = client := by
    rcases Nat.le_total n m with hle | hle
    · have := getElem?_of_isPrefix (accepted_isPrefix hle) hk
      simp_all
    · have := getElem?_of_isPrefix (accepted_isPrefix hle) haccepted
      simp_all
  exact ⟨value, by rw [hreply, hsame]⟩

/-- What the composed system has come to in `pingRun`. -/
def pingState (n : Nat) : System :=
  Schedule.stateAt (step .latin 9) (start 5 7) pingRun n

/-- The last moves of the parties in `pingRun`. -/
theorem pingRun_moves :
    Moves (pingState 13) (pingRun[13]?.getD (.giveUp ⟨1, 0⟩)) .bridge ∧
      Moves (pingState 5) (pingRun[5]?.getD (.giveUp ⟨1, 0⟩)) .supplicant ∧
      Moves (pingState 14) (pingRun[14]?.getD (.giveUp ⟨1, 0⟩)) .port := by
  decide +kernel

/-- After these moves they have nothing left to do. -/
theorem pingRun_ends :
    ∀ n < 16, ((pingState n).ready = true → n ≤ 13) ∧
      ((pingState n).unanswered ≠ [] → n ≤ 5) ∧
      ((unframe? (pingState n).stdout).isSome → n ≤ 14) := by
  decide +kernel

/-- The run of `pingRun`, with nothing going on behind it, is fair. -/
theorem exists_fair_ping :
    ∃ r : Schedule (step .latin 9) (start 5 7), Fair r ∧
      ∀ n, r.state n = pingState n ∧ r.label n = pingRun[n]?.getD (.giveUp ⟨1, 0⟩) := by
  have hallowed : ((StepSystem.run? (step .latin 9)
      (fun s a => Admissible .latin s a ∧ Truthful s a) (start 5 7) pingRun).isSome) := by
    decide +kernel
  obtain ⟨s, hs⟩ := Option.isSome_iff_exists.mp hallowed
  have hidle : ∀ s, step .latin 9 s (.giveUp ⟨1, 0⟩) = some s := fun _ => rfl
  have hr (n : Nat) : (Schedule.ofHistory hs _ hidle).state n = pingState n ∧
      (Schedule.ofHistory hs _ hidle).label n = pingRun[n]?.getD (.giveUp ⟨1, 0⟩) :=
    ⟨rfl, rfl⟩
  have hsteps := Schedule.allowed_ofHistory hs hidle fun _ => ⟨trivial, trivial⟩
  have hends (n : Nat) := pingRun_ends (min n 15) (by omega)
  have hstate (n : Nat) : pingState n = pingState (min n 15) := by
    rcases Nat.le_total n 15 with hle | hle
    · rw [Nat.min_eq_left hle]
    · rw [Nat.min_eq_right hle]
      exact Schedule.stateAt_of_length_le hle
  refine ⟨Schedule.ofHistory hs _ hidle, ?_, hr⟩
  refine ⟨fun n => (hsteps n).1, fun n => (hsteps n).2, fun n hready => ⟨13, ?_, ?_⟩,
    fun n hunanswered => ⟨5, ?_, ?_⟩, fun n _ hstdout => ⟨14, ?_, ?_⟩, 15, fun n hn => ?_⟩
  · have := (hends n).1 (by rw [← hstate]; exact hready)
    omega
  · rw [(hr 13).1, (hr 13).2]
    exact pingRun_moves.1
  · have := (hends n).2.1 (by rw [← hstate]; exact hunanswered)
    omega
  · rw [(hr 5).1, (hr 5).2]
    exact pingRun_moves.2.1
  · have := (hends n).2.2 (by rw [← hstate]; exact hstdout)
    omega
  · rw [(hr 14).1, (hr 14).2]
    exact pingRun_moves.2.2
  · rw [(hr n).2, List.getElem?_eq_none_iff.mpr hn]
    simp

end Fairness

end System
end WpaSupplicant
