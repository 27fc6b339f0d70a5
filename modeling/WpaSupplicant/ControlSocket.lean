import WpaSupplicant.ControlAddress
import WpaSupplicant.StepSystem
import Mathlib.Data.Finset.Insert

/-!
# Opening and closing the control connection

`wpa_ctrl_open` and `wpa_ctrl_close` as a machine of system calls, over what the kernel
keeps for the process: its sockets, its memory and the socket files.

* `step_owns`: at every point the process holds what the code still has to give back;
* `open_balanced`, `open_returns`: so opening leaks nothing, and comes to an end;
* `file_left_iff`: the one failure that leaves the socket file behind;
* `closed_as_before`: opening and closing give back everything.
-/

namespace WpaSupplicant

open StepSystem (Run run? run_of_run?)

namespace WpaCtrl

/-- A file descriptor. -/
abbrev Fd := Nat

/-- A datagram socket. -/
structure Socket where
  bound : Option Binary
  peer : Option SocketName
  flags : UInt32
deriving DecidableEq

/-- A new socket; its flags are `O_RDWR`. -/
def Socket.unbound : Socket :=
  ⟨none, none, 2⟩

/-- What the kernel keeps. -/
structure Kernel where
  sockets : Fd → Option Socket
  allocated : Nat
  files : Finset Binary

inductive BindResult
  | ok
  | inUse
  | failed
deriving DecidableEq

/-- The calls of `wpa_ctrl_open` and `wpa_ctrl_close`, with what they are given and return. -/
inductive Call
  | malloc (granted : Bool)
  | socket (fd : Option Fd)
  | bind (fd : Fd) (address : SunPath) (r : BindResult)
  | unlink (path : Binary) (removed : Bool)
  | connect (fd : Fd) (address : SunPath) (connected : Bool)
  | getFlags (fd : Fd) (flags : Option UInt32)
  | setFlags (fd : Fd) (flags : UInt32) (set : Bool)
  | close (fd : Fd)
  | free
deriving DecidableEq

namespace Kernel

def setSocket (k : Kernel) (fd : Fd) (s : Option Socket) : Kernel :=
  { k with sockets := Function.update k.sockets fd s }

/--
What a call does; `none` where it cannot have the result it is said to have.  A name is
in use if there is a file of this name.
-/
def call (k : Kernel) : Call → Option Kernel
  | .malloc granted => some (if granted then { k with allocated := k.allocated + 1 } else k)
  | .socket none => some k
  | .socket (some fd) =>
      match k.sockets fd with
      | none => some (k.setSocket fd (some .unbound))
      | some _ => none
  | .bind fd address .ok =>
      match k.sockets fd with
      | none => none
      | some s =>
          if address.path ∈ k.files then none
          else
            some { k.setSocket fd (some { s with bound := some address.path }) with
              files := insert address.path k.files }
  | .bind _ address .inUse => if address.path ∈ k.files then some k else none
  | .bind _ _ .failed => some k
  | .unlink path true =>
      if path ∈ k.files then some { k with files := k.files.erase path } else none
  | .unlink _ false => some k
  | .connect fd address true =>
      (k.sockets fd).map fun s => k.setSocket fd (some { s with peer := some address.name })
  | .connect _ _ false => some k
  | .getFlags fd (some flags) =>
      if (k.sockets fd).any (·.flags = flags) then some k else none
  | .getFlags _ none => some k
  | .setFlags fd flags true =>
      (k.sockets fd).map fun s => k.setSocket fd (some { s with flags := flags })
  | .setFlags _ _ false => some k
  | .close fd => (k.sockets fd).map fun _ => k.setSocket fd none
  | .free => if k.allocated = 0 then none else some { k with allocated := k.allocated - 1 }

end Kernel

/-- `struct wpa_ctrl`. -/
structure Ctrl where
  s : Fd
  localAddress : SunPath
  dest : SunPath
deriving DecidableEq

/-- A call that takes back an earlier one. -/
inductive Undo
  | close (fd : Fd)
  | unlink (path : Binary)
  | free
deriving DecidableEq

namespace Undo

/-- The call is the one to be made. -/
def isMadeBy : Undo → Call → Bool
  | .close fd, .close fd' => fd' = fd
  | .unlink path, .unlink path' _ => path' = path
  | .free, .free => true
  | _, _ => false

/-- The descriptor that the call closes. -/
def fd? : Undo → Option Fd
  | .close fd => some fd
  | _ => none

end Undo

/-- The call that is about to be made. -/
inductive OpenPoint
  | malloc
  | socket
  | bind (ctrl : Ctrl) (tries : Nat)
  | unlinkStale (ctrl : Ctrl) (tries : Nat)
  | connect (ctrl : Ctrl)
  | getFlags (ctrl : Ctrl)
  | setFlags (ctrl : Ctrl) (flags : UInt32)
  | undo (u : Undo) (todo : List Undo)
  | returned (ctrl : Option Ctrl)
deriving DecidableEq

/-- The calls that would take back what the process holds at a point. -/
def OpenPoint.held : OpenPoint → List Undo
  | .malloc | .returned none => []
  | .socket => [.free]
  | .bind ctrl _ | .unlinkStale ctrl _ => [.close ctrl.s, .free]
  | .connect ctrl | .getFlags ctrl | .setFlags ctrl _ | .returned (some ctrl) =>
      [.unlink ctrl.localAddress.path, .close ctrl.s, .free]
  | .undo u todo => u :: todo

/-- The arguments: the control path, `getpid()`, and `counter` after it was incremented. -/
structure Client where
  ctrlPath : CString
  pid : Int32
  counter : Int32

/-- `O_NONBLOCK`. -/
def nonBlock : UInt32 := 0x800

/-- The calls before the return without a connection. -/
def undoAll : List Undo → OpenPoint
  | [] => .returned none
  | u :: todo => .undo u todo

namespace Client

variable (cl : Client)

/-- The path of the own socket file. -/
def path : Binary :=
  clientPath cl.pid cl.counter

/-- From `try_again` to the call of `bind`. -/
def tryAgain (ctrl : Ctrl) (tries : Nat) : OpenPoint :=
  match localAddress ctrl.localAddress cl.pid cl.counter with
  | none => undoAll [.close ctrl.s, .free]
  | some a => .bind { ctrl with localAddress := a } (tries + 1)

/-- From a successful `bind` to the call of `connect`. -/
def connectTo (ctrl : Ctrl) : OpenPoint :=
  match destAddress cl.ctrlPath with
  | none => undoAll [.close ctrl.s, .free]
  | some dest => .connect { ctrl with dest := dest }

/-- One call of `wpa_ctrl_open`; `none` when it is not the one the code makes. -/
def open? (p : OpenPoint) (c : Call) : Option OpenPoint :=
  match p, c with
  | .malloc, .malloc granted => some (if granted then .socket else .returned none)
  | .socket, .socket none => some (undoAll [.free])
  | .socket, .socket (some fd) => some (cl.tryAgain ⟨fd, .zero, .zero⟩ 0)
  | .bind ctrl tries, .bind fd address r =>
      if fd = ctrl.s ∧ address = ctrl.localAddress then
        match r with
        | .ok => some (cl.connectTo ctrl)
        | .inUse =>
            some (if tries < 2 then .unlinkStale ctrl tries
              else undoAll [.close ctrl.s, .free])
        | .failed => some (undoAll [.close ctrl.s, .free])
      else
        none
  | .unlinkStale ctrl tries, .unlink path _ =>
      if path = ctrl.localAddress.path then some (cl.tryAgain ctrl tries) else none
  | .connect ctrl, .connect fd address connected =>
      if fd = ctrl.s ∧ address = ctrl.dest then
        some (if connected then .getFlags ctrl
          else undoAll [.close ctrl.s, .unlink ctrl.localAddress.path, .free])
      else
        none
  | .getFlags ctrl, .getFlags fd flags =>
      if fd = ctrl.s then
        match flags with
        | none => some (.returned (some ctrl))
        | some flags => some (.setFlags ctrl (flags ||| nonBlock))
      else
        none
  | .setFlags ctrl flags, .setFlags fd flags' _ =>
      if fd = ctrl.s ∧ flags' = flags then some (.returned (some ctrl)) else none
  | .undo u todo, c => if u.isMadeBy c then some (undoAll todo) else none
  | _, _ => none

/-- One call of the code and what the kernel does on it. -/
def step (s : OpenPoint × Kernel) (c : Call) : Option (OpenPoint × Kernel) :=
  (cl.open? s.1 c).bind fun p => (s.2.call c).map fun k => (p, k)

end Client

/-- `wpa_ctrl_open`. -/
def wpaCtrlOpen (ctrlPath : Option CString) : OpenPoint :=
  match ctrlPath with
  | none => .returned none
  | some _ => .malloc

/-- `wpa_ctrl_close`; a descriptor is not negative. -/
def wpaCtrlClose (ctrl : Option Ctrl) : OpenPoint :=
  match ctrl with
  | none => .returned none
  | some ctrl => undoAll [.unlink ctrl.localAddress.path, .close ctrl.s, .free]

namespace Client

variable {cl : Client}

/-- What a call can do. -/
inductive StepCases (cl : Client) : OpenPoint × Kernel → Call → OpenPoint × Kernel → Prop
  | notGranted (k : Kernel) :
      StepCases cl (.malloc, k) (.malloc false) (.returned none, k)
  | granted (k : Kernel) :
      StepCases cl (.malloc, k) (.malloc true)
        (.socket, { k with allocated := k.allocated + 1 })
  | noSocket (k : Kernel) :
      StepCases cl (.socket, k) (.socket none) (.undo .free [], k)
  | socket (k : Kernel) (fd : Fd) (a : SunPath)
      (hfresh : k.sockets fd = none) (ha : a.path = cl.path) :
      StepCases cl (.socket, k) (.socket (some fd))
        (.bind ⟨fd, a, .zero⟩ 1, k.setSocket fd (some .unbound))
  | bound (k : Kernel) (ctrl : Ctrl) (tries : Nat) (s : Socket)
      (hs : k.sockets ctrl.s = some s) (hfree : ctrl.localAddress.path ∉ k.files) :
      StepCases cl (.bind ctrl tries, k) (.bind ctrl.s ctrl.localAddress .ok)
        (cl.connectTo ctrl,
          { k.setSocket ctrl.s (some { s with bound := some ctrl.localAddress.path }) with
            files := insert ctrl.localAddress.path k.files })
  | inUse (k : Kernel) (ctrl : Ctrl) (tries : Nat)
      (htries : tries < 2) (hused : ctrl.localAddress.path ∈ k.files) :
      StepCases cl (.bind ctrl tries, k) (.bind ctrl.s ctrl.localAddress .inUse)
        (.unlinkStale ctrl tries, k)
  | notBound (k : Kernel) (ctrl : Ctrl) (tries : Nat) (r : BindResult)
      (hr : r = .failed ∨
        r = .inUse ∧ ¬ tries < 2 ∧ ctrl.localAddress.path ∈ k.files) :
      StepCases cl (.bind ctrl tries, k) (.bind ctrl.s ctrl.localAddress r)
        (.undo (.close ctrl.s) [.free], k)
  | unlinkedStale (k k' : Kernel) (ctrl : Ctrl) (tries : Nat) (removed : Bool) (a : SunPath)
      (hk : k.call (.unlink ctrl.localAddress.path removed) = some k')
      (ha : a.path = cl.path) :
      StepCases cl (.unlinkStale ctrl tries, k) (.unlink ctrl.localAddress.path removed)
        (.bind { ctrl with localAddress := a } (tries + 1), k')
  | connected (k : Kernel) (ctrl : Ctrl) (s : Socket)
      (hs : k.sockets ctrl.s = some s) :
      StepCases cl (.connect ctrl, k) (.connect ctrl.s ctrl.dest true)
        (.getFlags ctrl, k.setSocket ctrl.s (some { s with peer := some ctrl.dest.name }))
  | notConnected (k : Kernel) (ctrl : Ctrl) :
      StepCases cl (.connect ctrl, k) (.connect ctrl.s ctrl.dest false)
        (.undo (.close ctrl.s) [.unlink ctrl.localAddress.path, .free], k)
  | flags (k : Kernel) (ctrl : Ctrl) (flags : UInt32) :
      StepCases cl (.getFlags ctrl, k) (.getFlags ctrl.s (some flags))
        (.setFlags ctrl (flags ||| nonBlock), k)
  | noFlags (k : Kernel) (ctrl : Ctrl) :
      StepCases cl (.getFlags ctrl, k) (.getFlags ctrl.s none) (.returned (some ctrl), k)
  | set (k : Kernel) (ctrl : Ctrl) (flags : UInt32) (s : Socket)
      (hs : k.sockets ctrl.s = some s) :
      StepCases cl (.setFlags ctrl flags, k) (.setFlags ctrl.s flags true)
        (.returned (some ctrl), k.setSocket ctrl.s (some { s with flags := flags }))
  | notSet (k : Kernel) (ctrl : Ctrl) (flags : UInt32) :
      StepCases cl (.setFlags ctrl flags, k) (.setFlags ctrl.s flags false)
        (.returned (some ctrl), k)
  | closed (k : Kernel) (fd : Fd) (todo : List Undo) (s : Socket)
      (hs : k.sockets fd = some s) :
      StepCases cl (.undo (.close fd) todo, k) (.close fd)
        (undoAll todo, k.setSocket fd none)
  | unlinked (k k' : Kernel) (path : Binary) (todo : List Undo) (removed : Bool)
      (hk : k.call (.unlink path removed) = some k') :
      StepCases cl (.undo (.unlink path) todo, k) (.unlink path removed) (undoAll todo, k')
  | freed (k : Kernel) (todo : List Undo)
      (hpos : k.allocated ≠ 0) :
      StepCases cl (.undo .free todo, k) .free
        (undoAll todo, { k with allocated := k.allocated - 1 })

/-- The path of the own socket file always fits into `sun_path`. -/
theorem exists_tryAgain (cl : Client) (ctrl : Ctrl) (tries : Nat) :
    ∃ a, a.path = cl.path ∧
      cl.tryAgain ctrl tries = .bind { ctrl with localAddress := a } (tries + 1) := by
  obtain ⟨a, hsome, ha⟩ := exists_localAddress ctrl.localAddress cl.pid cl.counter
  refine ⟨a, ?_, ?_⟩
  · rw [path, ha]
  · unfold tryAgain
    split
    · next hnone =>
        rw [hnone] at hsome
        cases hsome
    · next a' ha' =>
        obtain rfl : a' = a := Option.some.inj (ha'.symm.trans hsome)
        rfl

/-- A step is one of `StepCases`. -/
theorem step_cases
    {s s' : OpenPoint × Kernel} {c : Call} (h : cl.step s c = some s') :
    StepCases cl s c s' := by
  obtain ⟨p, k⟩ := s
  obtain ⟨p', hopen, hmap⟩ := Option.bind_eq_some_iff.mp h
  obtain ⟨k', hcall, rfl⟩ := Option.map_eq_some_iff.mp hmap
  clear h hmap
  simp only at hcall
  cases p with
  | malloc =>
      rcases c with (_ | _) | _ | _ | _ | _ | _ | _ | _ | _ <;> cases hopen <;> cases hcall
      · exact .notGranted k
      · exact .granted k
  | socket =>
      rcases c with _ | (_ | fd) | _ | _ | _ | _ | _ | _ | _ <;> cases hopen
      · cases hcall
        exact .noSocket k
      · obtain ⟨a, ha, htry⟩ := exists_tryAgain cl ⟨fd, .zero, .zero⟩ 0
        simp only [Kernel.call] at hcall
        split at hcall
        · next hfresh =>
            cases hcall
            rw [htry]
            exact .socket k fd a hfresh ha
        · cases hcall
  | bind ctrl tries =>
      rcases c with _ | _ | ⟨fd, address, r⟩ | _ | _ | _ | _ | _ | _
      case bind =>
        simp only [open?] at hopen
        split at hopen
        · next hargs =>
            obtain ⟨rfl, rfl⟩ := hargs
            cases r with
            | ok =>
                cases hopen
                simp only [Kernel.call] at hcall
                split at hcall
                · cases hcall
                · next s hs =>
                    split at hcall
                    · cases hcall
                    · next hfree =>
                        cases hcall
                        exact .bound k ctrl tries s hs hfree
            | inUse =>
                simp only [Kernel.call] at hcall
                split at hcall
                · next hused =>
                    cases hcall
                    by_cases htries : tries < 2
                    · rw [if_pos htries] at hopen
                      cases hopen
                      exact .inUse k ctrl tries htries hused
                    · rw [if_neg htries] at hopen
                      cases hopen
                      exact .notBound k ctrl tries .inUse (.inr ⟨rfl, htries, hused⟩)
                · cases hcall
            | failed =>
                cases hopen
                cases hcall
                exact .notBound k ctrl tries .failed (.inl rfl)
        · cases hopen
      all_goals cases hopen
  | unlinkStale ctrl tries =>
      rcases c with _ | _ | _ | ⟨path, removed⟩ | _ | _ | _ | _ | _
      case unlink =>
        simp only [open?] at hopen
        split at hopen
        · next hpath =>
            subst hpath
            obtain ⟨a, ha, htry⟩ := exists_tryAgain cl ctrl tries
            rw [htry] at hopen
            cases hopen
            exact .unlinkedStale k k' ctrl tries removed a hcall ha
        · cases hopen
      all_goals cases hopen
  | connect ctrl =>
      rcases c with _ | _ | _ | _ | ⟨fd, address, connected⟩ | _ | _ | _ | _
      case connect =>
        simp only [open?] at hopen
        split at hopen
        · next hargs =>
            obtain ⟨rfl, rfl⟩ := hargs
            cases connected <;> cases hopen
            · cases hcall
              exact .notConnected k ctrl
            · obtain ⟨s, hs, rfl⟩ := Option.map_eq_some_iff.mp hcall
              exact .connected k ctrl s hs
        · cases hopen
      all_goals cases hopen
  | getFlags ctrl =>
      rcases c with _ | _ | _ | _ | _ | ⟨fd, flags⟩ | _ | _ | _
      case getFlags =>
        simp only [open?] at hopen
        split at hopen
        · next hfd =>
            subst hfd
            cases flags with
            | none =>
                cases hopen
                cases hcall
                exact .noFlags k ctrl
            | some flags =>
                simp only [Kernel.call] at hcall
                split at hcall
                · cases hopen
                  cases hcall
                  exact .flags k ctrl flags
                · cases hcall
        · cases hopen
      all_goals cases hopen
  | setFlags ctrl flags =>
      rcases c with _ | _ | _ | _ | _ | _ | ⟨fd, flags', done⟩ | _ | _
      case setFlags =>
        simp only [open?] at hopen
        split at hopen
        · next hargs =>
            obtain ⟨rfl, rfl⟩ := hargs
            cases hopen
            cases done
            · cases hcall
              exact .notSet k ctrl flags'
            · obtain ⟨s, hs, rfl⟩ := Option.map_eq_some_iff.mp hcall
              exact .set k ctrl flags' s hs
        · cases hopen
      all_goals cases hopen
  | undo u todo =>
      simp only [open?] at hopen
      split at hopen
      · next hmade =>
          cases hopen
          cases u with
          | close fd =>
              rcases c with _ | _ | _ | _ | _ | _ | _ | fd' | _ <;>
                simp only [Undo.isMadeBy, Bool.false_eq_true] at hmade
              obtain rfl : fd' = fd := of_decide_eq_true hmade
              obtain ⟨s, hs, rfl⟩ := Option.map_eq_some_iff.mp hcall
              exact .closed k fd' todo s hs
          | unlink path =>
              rcases c with _ | _ | _ | ⟨path', removed⟩ | _ | _ | _ | _ | _ <;>
                simp only [Undo.isMadeBy, Bool.false_eq_true] at hmade
              obtain rfl : path' = path := of_decide_eq_true hmade
              exact .unlinked k k' path' todo removed hcall
          | free =>
              cases c <;> simp only [Undo.isMadeBy, Bool.false_eq_true] at hmade
              simp only [Kernel.call] at hcall
              split at hcall
              · cases hcall
              · next hpos =>
                  cases hcall
                  exact .freed k todo hpos
      · cases hopen
  | returned ctrl =>
      cases c <;> cases hopen

end Client

section Owned

/-- The sockets of the process are those of `k₀` and the given ones. -/
inductive OpenSockets (k₀ k : Kernel) : List Fd → Prop
  | none
      (hsame : k.sockets = k₀.sockets) :
      OpenSockets k₀ k []
  | one
      (fd : Fd) (s : Socket)
      (hfresh : k₀.sockets fd = none)
      (hopen : k.sockets = Function.update k₀.sockets fd (some s)) :
      OpenSockets k₀ k [fd]

/-- The process holds what it held in `k₀` and what is to be given back at this point. -/
structure Owns (k₀ : Kernel) (p : OpenPoint) (k : Kernel) : Prop where
  sockets : OpenSockets k₀ k (p.held.filterMap Undo.fd?)
  allocated : k.allocated = k₀.allocated + p.held.count .free

@[simp] theorem held_undoAll (todo : List Undo) : (undoAll todo).held = todo := by
  cases todo <;> rfl

variable {k₀ k k' : Kernel} {cl : Client}

theorem OpenSockets.set
    {fd : Fd} {s : Socket} (h : OpenSockets k₀ k [fd]) :
    OpenSockets k₀ (k.setSocket fd (some s)) [fd] := by
  cases h with
  | one fd s₀ hfresh hopen =>
      refine .one fd s hfresh ?_
      rw [Kernel.setSocket, hopen, Function.update_idem]

/-- Closing the one socket leaves those of `k₀`. -/
theorem OpenSockets.close
    {fd : Fd} {fds : List Fd} (h : OpenSockets k₀ k (fd :: fds)) :
    OpenSockets k₀ (k.setSocket fd Option.none) fds := by
  cases h with
  | one fd s hfresh hopen =>
      refine .none ?_
      rw [Kernel.setSocket, hopen, Function.update_idem, ← hfresh, Function.update_eq_self]

theorem OpenSockets.congr
    {fds : List Fd} (h : OpenSockets k₀ k fds) (hsame : k'.sockets = k.sockets) :
    OpenSockets k₀ k' fds := by
  cases h with
  | none h =>
      exact .none (hsame.trans h)
  | one fd s hfresh hopen =>
      exact .one fd s hfresh (hsame.trans hopen)

/-- `unlink` is about the files only, and about the one that it names. -/
theorem call_unlink
    {path : Binary} {removed : Bool} (h : k.call (.unlink path removed) = some k') :
    k'.sockets = k.sockets ∧ k'.allocated = k.allocated ∧
      k'.files = if removed then k.files.erase path else k.files := by
  cases removed with
  | false =>
      cases h
      exact ⟨rfl, rfl, rfl⟩
  | true =>
      simp only [Kernel.call] at h
      split at h
      · cases h
        exact ⟨rfl, rfl, rfl⟩
      · cases h

/-- Where the control path does not fit, `wpa_ctrl_open` forgets its socket file only. -/
theorem held_connectTo (ctrl : Ctrl) :
    (cl.connectTo ctrl).held =
      if destAddress cl.ctrlPath = none then [.close ctrl.s, .free]
      else [.unlink ctrl.localAddress.path, .close ctrl.s, .free] := by
  unfold Client.connectTo
  split
  · next h =>
      rw [if_pos h, held_undoAll]
  · next dest h =>
      rw [if_neg (by simp [h])]
      rfl

theorem step_owns
    {s s' : OpenPoint × Kernel} {c : Call} (h : cl.step s c = some s')
    (hs : Owns k₀ s.1 s.2) :
    Owns k₀ s'.1 s'.2 := by
  obtain ⟨hsockets, hallocated⟩ := hs
  cases Client.step_cases h with
  | notGranted k =>
      exact ⟨hsockets, hallocated⟩
  | granted k =>
      exact ⟨hsockets.congr rfl, congrArg (· + 1) hallocated⟩
  | noSocket k =>
      exact ⟨hsockets, hallocated⟩
  | socket k fd a hfresh ha =>
      cases hsockets with
      | none hsame =>
          refine ⟨.one fd .unbound (hsame ▸ hfresh) ?_, hallocated⟩
          rw [Kernel.setSocket, ← hsame]
  | bound k ctrl tries s hs hfree =>
      have hset := hsockets.set (s := { s with bound := some ctrl.localAddress.path })
      constructor
      · rw [held_connectTo]
        split <;> exact hset.congr rfl
      · rw [held_connectTo]
        split <;> exact hallocated
  | inUse k ctrl tries htries hused =>
      exact ⟨hsockets, hallocated⟩
  | notBound k ctrl tries r hr =>
      exact ⟨hsockets, hallocated⟩
  | unlinkedStale k k' ctrl tries removed a hk ha =>
      obtain ⟨hsame, hmemory, _⟩ := call_unlink hk
      exact ⟨hsockets.congr hsame, hmemory.trans hallocated⟩
  | connected k ctrl s hs =>
      exact ⟨hsockets.set, hallocated⟩
  | notConnected k ctrl =>
      exact ⟨hsockets, hallocated⟩
  | flags k ctrl flags =>
      exact ⟨hsockets, hallocated⟩
  | noFlags k ctrl =>
      exact ⟨hsockets, hallocated⟩
  | set k ctrl flags s hs =>
      exact ⟨hsockets.set, hallocated⟩
  | notSet k ctrl flags =>
      exact ⟨hsockets, hallocated⟩
  | closed k fd todo s hs =>
      rw [← held_undoAll todo] at hsockets hallocated
      exact ⟨hsockets.close, hallocated⟩
  | unlinked k k' path todo removed hk =>
      obtain ⟨hsame, hmemory, _⟩ := call_unlink hk
      rw [← held_undoAll todo] at hsockets hallocated
      exact ⟨hsockets.congr hsame, hmemory.trans hallocated⟩
  | freed k todo hpos =>
      constructor
      · rw [held_undoAll]
        exact hsockets.congr rfl
      · have hcount : (Undo.free :: todo).count .free = todo.count .free + 1 :=
          List.count_cons_self
        simp only [OpenPoint.held, hcount] at hallocated
        simp only [held_undoAll, hallocated]
        omega

end Owned

section Addresses

/-- The socket is bound to the own path and connected to the address of the control path. -/
def Connected (cl : Client) (ctrl : Ctrl) (k : Kernel) : Prop :=
  ∃ s, k.sockets ctrl.s = some s ∧ s.bound = some cl.path ∧
    s.peer = (destAddress cl.ctrlPath).map SunPath.name

/-- The addresses at a point are those of the arguments. -/
def Addressed (cl : Client) (p : OpenPoint) (k : Kernel) : Prop :=
  match p with
  | .malloc | .socket | .returned none => True
  | .bind ctrl _ | .unlinkStale ctrl _ => ctrl.localAddress.path = cl.path
  | .connect ctrl =>
      ctrl.localAddress.path = cl.path ∧ destAddress cl.ctrlPath = some ctrl.dest ∧
        ∃ s, k.sockets ctrl.s = some s ∧ s.bound = some cl.path
  | .getFlags ctrl | .setFlags ctrl _ | .returned (some ctrl) =>
      ctrl.localAddress.path = cl.path ∧ (destAddress cl.ctrlPath).isSome ∧
        Connected cl ctrl k
  | .undo u todo => ∀ path, .unlink path ∈ u :: todo → path = cl.path

variable {cl : Client} {k : Kernel}

theorem addressed_undoAll
    {todo : List Undo} (h : ∀ path, .unlink path ∈ todo → path = cl.path) :
    Addressed cl (undoAll todo) k := by
  cases todo with
  | nil =>
      trivial
  | cons u todo =>
      exact h

theorem step_addressed
    {s s' : OpenPoint × Kernel} {c : Call} (h : cl.step s c = some s')
    (hs : Addressed cl s.1 s.2) :
    Addressed cl s'.1 s'.2 := by
  cases Client.step_cases h with
  | notGranted | granted =>
      trivial
  | noSocket =>
      simp [Addressed]
  | socket k fd a hfresh ha =>
      exact ha
  | bound k ctrl tries s hbound hfree =>
      have hpath : ctrl.localAddress.path = cl.path := hs
      simp only [Client.connectTo]
      split
      · exact addressed_undoAll (by simp)
      · next dest hdest =>
          refine ⟨hpath, hdest, _, Function.update_self .., ?_⟩
          simp [hpath]
  | inUse | flags | noFlags | notSet =>
      exact hs
  | notBound =>
      simp [Addressed]
  | unlinkedStale k k' ctrl tries removed a hk ha =>
      exact ha
  | connected k ctrl s hsocket =>
      obtain ⟨hpath, hdest, s₀, hs₀, hbound⟩ := hs
      obtain rfl : s₀ = s := Option.some.inj (hs₀.symm.trans hsocket)
      exact ⟨hpath, by simp [hdest], _, Function.update_self .., hbound, by simp [hdest]⟩
  | notConnected k ctrl =>
      obtain ⟨hpath, _⟩ := hs
      simp [Addressed, hpath]
  | set k ctrl flags s hsocket =>
      obtain ⟨hpath, hdest, s₀, hs₀, hbound, hpeer⟩ := hs
      obtain rfl : s₀ = s := Option.some.inj (hs₀.symm.trans hsocket)
      exact ⟨hpath, hdest, _, Function.update_self .., hbound, hpeer⟩
  | closed k fd todo s hsocket =>
      exact addressed_undoAll fun path hpath => hs path (List.mem_cons_of_mem _ hpath)
  | unlinked k k' path todo removed hk =>
      exact addressed_undoAll fun path hpath => hs path (List.mem_cons_of_mem _ hpath)
  | freed k todo hpos =>
      exact addressed_undoAll fun path hpath => hs path (List.mem_cons_of_mem _ hpath)

end Addresses

section Balance

/--
On failure the process holds what it held before; on success it holds one more block of
memory and one more socket, bound and connected as the arguments say.  It never closes
a descriptor that is not open, and never frees memory that it does not hold.
-/
structure Balanced (cl : Client) (k₀ : Kernel) (p : OpenPoint) (k : Kernel) : Prop where
  null : p = .returned none → k.sockets = k₀.sockets ∧ k.allocated = k₀.allocated
  opened : ∀ ctrl, p = .returned (some ctrl) →
    k.allocated = k₀.allocated + 1 ∧ k₀.sockets ctrl.s = none ∧
      (∃ s, k.sockets = Function.update k₀.sockets ctrl.s (some s)) ∧ Connected cl ctrl k
  closes : ∀ fd todo, p = .undo (.close fd) todo → k.sockets fd ≠ none
  frees : ∀ todo, p = .undo .free todo → k.allocated ≠ 0

variable {cl : Client} {k₀ : Kernel}

theorem balanced_of_owns
    {p : OpenPoint} {k : Kernel} (howns : Owns k₀ p k) (haddressed : Addressed cl p k) :
    Balanced cl k₀ p k := by
  obtain ⟨hsockets, hallocated⟩ := howns
  constructor
  · rintro rfl
    cases hsockets with
    | none hsame =>
        exact ⟨hsame, hallocated⟩
  · rintro ctrl rfl
    cases hsockets with
    | one fd s hfresh hopen =>
        exact ⟨hallocated, hfresh, ⟨s, hopen⟩, haddressed.2.2⟩
  · rintro fd todo rfl
    generalize hfds : (OpenPoint.undo (.close fd) todo).held.filterMap Undo.fd? = fds at hsockets
    cases hsockets with
    | none hsame =>
        simp [OpenPoint.held, Undo.fd?] at hfds
    | one fd' s hfresh hopen =>
        obtain ⟨rfl, _⟩ : fd = fd' ∧ _ := by simpa [OpenPoint.held, Undo.fd?] using hfds
        simp [hopen]
  · rintro todo rfl
    simp only [OpenPoint.held, List.count_cons_self] at hallocated
    omega

theorem run_owns
    {A : OpenPoint × Kernel → Call → Prop} {hist : List Call} {s₀ s : OpenPoint × Kernel}
    (howns : Owns k₀ s₀.1 s₀.2) (haddressed : Addressed cl s₀.1 s₀.2)
    (hrun : Run cl.step A s₀ hist s) :
    Owns k₀ s.1 s.2 ∧ Addressed cl s.1 s.2 := by
  refine hrun.invariant (I := fun _ s => Owns k₀ s.1 s.2 ∧ Addressed cl s.1 s.2)
    ⟨howns, haddressed⟩ ?_
  intro hist s c s' ih _ hstep
  exact ⟨step_owns hstep ih.1, step_addressed hstep ih.2⟩

theorem open_owns
    {A : OpenPoint × Kernel → Call → Prop} {hist : List Call} {s : OpenPoint × Kernel}
    (hrun : Run cl.step A (wpaCtrlOpen (some cl.ctrlPath), k₀) hist s) :
    Owns k₀ s.1 s.2 ∧ Addressed cl s.1 s.2 := by
  have hstart : Owns k₀ (wpaCtrlOpen (some cl.ctrlPath)) k₀ := ⟨.none rfl, rfl⟩
  have haddressed : Addressed cl (wpaCtrlOpen (some cl.ctrlPath)) k₀ := trivial
  exact run_owns hstart haddressed hrun

/-- A first process, and the path of its socket file. -/
def firstClient : Client :=
  ⟨⟨lit "/run/wpa", by decide +kernel⟩, 7, 1⟩

/-- Nothing but a file left behind under the path of the first process. -/
def staleKernel : Kernel :=
  ⟨fun _ => none, 0, {firstClient.path}⟩

/-- The address of the first process, and the one it connects to. -/
def firstAddress : SunPath :=
  (localAddress .zero firstClient.pid firstClient.counter).getD .zero

def firstDest : SunPath :=
  (destAddress firstClient.ctrlPath).getD .zero

/-- The file is removed, and everything succeeds. -/
def staleRun : List Call :=
  [.malloc true, .socket (some 3), .bind 3 firstAddress .inUse, .unlink firstClient.path true,
    .bind 3 firstAddress .ok, .connect 3 firstDest true, .getFlags 3 (some 2),
    .setFlags 3 (2 ||| nonBlock) true]

/-- What `wpa_ctrl_open` holds, in every run and whatever its calls return. -/
theorem open_balanced
    {hist : List Call} {s : OpenPoint × Kernel}
    (hrun : Run cl.step (fun _ _ => True) (wpaCtrlOpen (some cl.ctrlPath), k₀) hist s) :
    Balanced cl k₀ s.1 s.2 :=
  balanced_of_owns (open_owns hrun).1 (open_owns hrun).2

/-- In `staleRun` the process gets a socket that is connected. -/
theorem open_balanced_stale :
    ∃ ctrl k, Run firstClient.step (fun _ _ => True)
      (wpaCtrlOpen (some firstClient.ctrlPath), staleKernel) staleRun
      (.returned (some ctrl), k) ∧
      Balanced firstClient staleKernel (.returned (some ctrl)) k := by
  have hend : (run? firstClient.step (fun _ _ => True)
      (wpaCtrlOpen (some firstClient.ctrlPath), staleKernel) staleRun).map Prod.fst =
        some (.returned (some ⟨3, firstAddress, firstDest⟩)) := by
    decide +kernel
  obtain ⟨⟨p, k⟩, hs, rfl⟩ := Option.map_eq_some_iff.mp hend
  exact ⟨_, k, run_of_run? hs, open_balanced (run_of_run? hs)⟩

end Balance

section Returns

/-- How many calls are made at most from a point on. -/
def callsLeft : OpenPoint → Nat
  | .malloc => 9
  | .socket => 8
  | .bind _ tries => if tries < 2 then 7 else 5
  | .unlinkStale _ _ => 6
  | .connect _ => 4
  | .getFlags _ => 2
  | .setFlags _ _ => 1
  | .undo _ todo => todo.length + 1
  | .returned _ => 0

/-- The stale file is removed after the first attempt to bind only. -/
def FirstTry (p : OpenPoint) : Prop :=
  match p with
  | .bind _ tries => 0 < tries
  | .unlinkStale _ tries => tries = 1
  | _ => True

variable {cl : Client} {k₀ : Kernel}

theorem callsLeft_undoAll (todo : List Undo) : callsLeft (undoAll todo) = todo.length := by
  cases todo <;> rfl

theorem step_callsLeft
    {s s' : OpenPoint × Kernel} {c : Call} (h : cl.step s c = some s') (hs : FirstTry s.1) :
    FirstTry s'.1 ∧ callsLeft s'.1 < callsLeft s.1 := by
  have hundo (todo : List Undo) :
      FirstTry (undoAll todo) ∧ callsLeft (undoAll todo) < todo.length + 1 := by
    rw [callsLeft_undoAll]
    exact ⟨by cases todo <;> trivial, Nat.lt_succ_self _⟩
  cases Client.step_cases h with
  | bound k ctrl tries s hbound hfree =>
      have hfive : 5 ≤ callsLeft (.bind ctrl tries) := by
        simp only [callsLeft]
        split <;> omega
      simp only [Client.connectTo]
      split
      · obtain ⟨hfirst, hlt⟩ := hundo [.close ctrl.s, .free]
        exact ⟨hfirst, hlt.trans_le ((by simp : _ ≤ 5).trans hfive)⟩
      · exact ⟨trivial, lt_of_lt_of_le (by simp [callsLeft]) hfive⟩
  | inUse k ctrl tries htries hused =>
      have hpos : 0 < tries := hs
      refine ⟨(by omega : tries = 1), ?_⟩
      simp [callsLeft, htries]
  | notBound k ctrl tries r hr =>
      refine ⟨trivial, ?_⟩
      simp only [callsLeft]
      split <;> decide
  | unlinkedStale k k' ctrl tries removed a hk ha =>
      obtain rfl : tries = 1 := hs
      exact ⟨Nat.succ_pos _, by simp [callsLeft]⟩
  | closed k fd todo | unlinked k k' path todo | freed k todo =>
      exact hundo todo
  | _ =>
      exact ⟨by simp [FirstTry], by simp [callsLeft]⟩

/-- Before the return there is always a call that can be made. -/
theorem exists_step
    {p : OpenPoint} {k : Kernel} (hbalanced : Balanced cl k₀ p k)
    (hp : ∀ result, p ≠ .returned result) :
    ∃ c, (cl.step (p, k) c).isSome := by
  cases p with
  | malloc =>
      exact ⟨.malloc false, rfl⟩
  | socket =>
      exact ⟨.socket none, rfl⟩
  | bind ctrl tries =>
      exact ⟨.bind ctrl.s ctrl.localAddress .failed,
        by simp [Client.step, Client.open?, Kernel.call]⟩
  | unlinkStale ctrl tries =>
      exact ⟨.unlink ctrl.localAddress.path false,
        by simp [Client.step, Client.open?, Kernel.call]⟩
  | connect ctrl =>
      exact ⟨.connect ctrl.s ctrl.dest false,
        by simp [Client.step, Client.open?, Kernel.call]⟩
  | getFlags ctrl =>
      exact ⟨.getFlags ctrl.s none, by simp [Client.step, Client.open?, Kernel.call]⟩
  | setFlags ctrl flags =>
      exact ⟨.setFlags ctrl.s flags false, by simp [Client.step, Client.open?, Kernel.call]⟩
  | undo u todo =>
      cases u with
      | close fd =>
          obtain ⟨s, hs⟩ := Option.ne_none_iff_exists'.mp (hbalanced.closes fd todo rfl)
          exact ⟨.close fd,
            by simp [Client.step, Client.open?, Kernel.call, Undo.isMadeBy, hs]⟩
      | unlink path =>
          exact ⟨.unlink path false,
            by simp [Client.step, Client.open?, Kernel.call, Undo.isMadeBy]⟩
      | free =>
          have hpos := hbalanced.frees todo rfl
          exact ⟨.free, by simp [Client.step, Client.open?, Kernel.call, Undo.isMadeBy, hpos]⟩
  | returned result =>
      exact absurd rfl (hp result)

/--
`wpa_ctrl_open` returns after at most nine calls, whatever they return, and is never
stuck before it returns.
-/
theorem open_returns
    {hist : List Call} {s : OpenPoint × Kernel}
    (hrun : Run cl.step (fun _ _ => True) (wpaCtrlOpen (some cl.ctrlPath), k₀) hist s) :
    hist.length ≤ 9 ∧ ((∀ result, s.1 ≠ .returned result) → ∃ c, (cl.step s c).isSome) := by
  have hstart : FirstTry (wpaCtrlOpen (some cl.ctrlPath)) := trivial
  have hcalls : FirstTry s.1 ∧ hist.length + callsLeft s.1 ≤ 9 := by
    refine hrun.invariant (I := fun hist s => FirstTry s.1 ∧ hist.length + callsLeft s.1 ≤ 9)
      ⟨hstart, by simp [wpaCtrlOpen, callsLeft]⟩ ?_
    intro hist s c s' ⟨hfirst, hle⟩ _ hstep
    obtain ⟨hfirst', hlt⟩ := step_callsLeft hstep hfirst
    refine ⟨hfirst', ?_⟩
    rw [List.length_append, List.length_singleton]
    omega
  obtain ⟨howns, haddressed⟩ := open_owns hrun
  exact ⟨by omega, exists_step (balanced_of_owns howns haddressed)⟩

/-- `staleRun` is one call short of the longest run. -/
theorem open_returns_stale :
    ∃ s, Run firstClient.step (fun _ _ => True)
      (wpaCtrlOpen (some firstClient.ctrlPath), staleKernel) staleRun s ∧
      staleRun.length ≤ 9 := by
  have hend : (run? firstClient.step (fun _ _ => True)
      (wpaCtrlOpen (some firstClient.ctrlPath), staleKernel) staleRun).isSome := by
    decide +kernel
  obtain ⟨s, hs⟩ := Option.isSome_iff_exists.mp hend
  exact ⟨s, run_of_run? hs, (open_returns (run_of_run? hs)).1⟩

end Returns

section Files

/-- `unlink` fails only where there is nothing to remove. -/
def Obliging (s : OpenPoint × Kernel) (c : Call) : Prop :=
  match c with
  | .unlink path false => path ∉ s.2.files
  | _ => True

instance (s : OpenPoint × Kernel) (c : Call) : Decidable (Obliging s c) :=
  match c with
  | .unlink path false => inferInstanceAs (Decidable (path ∉ s.2.files))
  | .unlink _ true | .malloc _ | .socket _ | .bind _ _ _ | .connect _ _ _ | .getFlags _ _
  | .setFlags _ _ _ | .close _ | .free => .isTrue trivial

/-- What is known of the own socket file at a point. -/
def OwnFile (cl : Client) (p : OpenPoint) (files : Finset Binary) : Prop :=
  match p with
  | .malloc | .socket | .returned none => True
  | .bind _ tries => tries = 1 ∨ tries = 2 ∧ cl.path ∉ files
  | .unlinkStale _ tries => tries = 1
  | .connect _ | .getFlags _ | .setFlags _ _ | .returned (some _) => cl.path ∈ files
  | .undo u todo =>
      (u :: todo).Nodup ∧ (.unlink cl.path ∈ u :: todo → cl.path ∈ files)

variable {cl : Client} {k₀ k k' : Kernel}

theorem ownFile_undoAll
    {todo : List Undo} {files : Finset Binary} (hnodup : todo.Nodup)
    (h : .unlink cl.path ∈ todo → cl.path ∈ files) :
    OwnFile cl (undoAll todo) files := by
  cases todo with
  | nil =>
      trivial
  | cons u todo =>
      exact ⟨hnodup, h⟩

/-- After `unlink` the file is gone. -/
theorem not_mem_of_unlink
    {p : OpenPoint} {path : Binary} {removed : Bool}
    (hobliging : Obliging (p, k) (.unlink path removed))
    (hcall : k.call (.unlink path removed) = some k') :
    path ∉ k'.files := by
  obtain ⟨_, _, hfiles⟩ := call_unlink hcall
  cases removed with
  | false =>
      rw [hfiles]
      exact hobliging
  | true =>
      rw [hfiles]
      exact Finset.notMem_erase path k.files

/-- The code touches no file but its own. -/
theorem step_otherFiles
    {s s' : OpenPoint × Kernel} {c : Call} (h : cl.step s c = some s')
    (haddressed : Addressed cl s.1 s.2) {path : Binary} (hne : path ≠ cl.path) :
    path ∈ s'.2.files ↔ path ∈ s.2.files := by
  have hunlink {k k' : Kernel} {removed : Bool}
      (hk : k.call (.unlink cl.path removed) = some k') :
      path ∈ k'.files ↔ path ∈ k.files := by
    obtain ⟨_, _, hfiles⟩ := call_unlink hk
    rw [hfiles]
    cases removed <;> simp [hne]
  cases Client.step_cases h with
  | bound k ctrl tries s hs hfree =>
      have hpath : ctrl.localAddress.path = cl.path := haddressed
      simp [hpath, hne]
  | unlinkedStale k k' ctrl tries removed a hk ha =>
      have hpath : ctrl.localAddress.path = cl.path := haddressed
      exact hunlink (hpath ▸ hk)
  | unlinked k k' path' todo removed hk =>
      have hpath : path' = cl.path := haddressed path' (List.mem_cons_self ..)
      exact hunlink (hpath ▸ hk)
  | _ =>
      rfl

theorem step_ownFile
    {s s' : OpenPoint × Kernel} {c : Call} (h : cl.step s c = some s')
    (hobliging : Obliging s c) (haddressed : Addressed cl s.1 s.2)
    (hs : OwnFile cl s.1 s.2.files) :
    OwnFile cl s'.1 s'.2.files := by
  cases Client.step_cases h with
  | notGranted | granted =>
      trivial
  | noSocket | notBound =>
      simp [OwnFile]
  | socket =>
      exact .inl rfl
  | bound k ctrl tries s hbound hfree =>
      have hpath : ctrl.localAddress.path = cl.path := haddressed
      simp only [Client.connectTo]
      split
      · exact ownFile_undoAll (by simp) (by simp)
      · simp [OwnFile, hpath]
  | inUse k ctrl tries htries hused =>
      rcases hs with htries' | ⟨htries', _⟩
      · exact htries'
      · omega
  | unlinkedStale k k' ctrl tries removed a hk ha =>
      have hpath : ctrl.localAddress.path = cl.path := haddressed
      obtain rfl : tries = 1 := hs
      exact .inr ⟨rfl, hpath ▸ not_mem_of_unlink hobliging hk⟩
  | connected | flags | noFlags | set | notSet =>
      exact hs
  | notConnected k ctrl =>
      exact ⟨by simp, fun _ => hs⟩
  | closed k fd todo s hsocket =>
      exact ownFile_undoAll hs.1.of_cons fun h => hs.2 (List.mem_cons_of_mem _ h)
  | unlinked k k' path todo removed hk =>
      obtain rfl : path = cl.path := haddressed path (List.mem_cons_self ..)
      exact ownFile_undoAll hs.1.of_cons fun h => absurd h (List.nodup_cons.mp hs.1).1
  | freed k todo hpos =>
      exact ownFile_undoAll hs.1.of_cons fun h => hs.2 (List.mem_cons_of_mem _ h)

/-- A name that is in use is that of a stale file, at the first attempt. -/
theorem step_inUse
    {p p' : OpenPoint} {fd : Fd} {address : SunPath}
    (h : cl.step (p, k) (.bind fd address .inUse) = some (p', k'))
    (haddressed : Addressed cl p k) (hown : OwnFile cl p k.files) :
    ∃ ctrl, p' = .unlinkStale ctrl 1 := by
  cases Client.step_cases h with
  | inUse k ctrl tries htries hused =>
      rcases hown with rfl | ⟨rfl, _⟩
      · exact ⟨ctrl, rfl⟩
      · omega
  | notBound k ctrl tries r hr =>
      have hpath : ctrl.localAddress.path = cl.path := haddressed
      obtain ⟨_, htries, hused⟩ := hr.resolve_left (by simp)
      rcases hown with rfl | ⟨_, hnot⟩
      · omega
      · exact absurd (hpath ▸ hused) hnot

/-- A socket file has been created. -/
def Created (hist : List Call) : Prop :=
  ∃ fd address, Call.bind fd address .ok ∈ hist

/--
Once the file has been created, the code either still has to remove it, or it has
removed it, or it has forgotten about it because the control path did not fit.
-/
def Leftover (cl : Client) (p : OpenPoint) (files : Finset Binary) : Prop :=
  match p with
  | .malloc | .socket | .bind _ _ | .unlinkStale _ _ => False
  | .connect _ | .getFlags _ | .setFlags _ _ | .returned (some _) => True
  | .undo u todo =>
      if .unlink cl.path ∈ u :: todo then destAddress cl.ctrlPath ≠ none
      else cl.path ∈ files ↔ destAddress cl.ctrlPath = none
  | .returned none => cl.path ∈ files ↔ destAddress cl.ctrlPath = none

theorem leftover_undoAll
    {todo : List Undo} {files : Finset Binary}
    (hheld : .unlink cl.path ∈ todo → destAddress cl.ctrlPath ≠ none)
    (hnot : .unlink cl.path ∉ todo →
      (cl.path ∈ files ↔ destAddress cl.ctrlPath = none)) :
    Leftover cl (undoAll todo) files := by
  cases todo with
  | nil =>
      exact hnot List.not_mem_nil
  | cons u todo =>
      simp only [undoAll, Leftover]
      split
      · next h =>
          exact hheld h
      · next h =>
          exact hnot h

theorem step_leftover
    {s s' : OpenPoint × Kernel} {c : Call} (h : cl.step s c = some s')
    (hobliging : Obliging s c) (haddressed : Addressed cl s.1 s.2)
    (hown : OwnFile cl s.1 s.2.files) (hs : Leftover cl s.1 s.2.files) :
    Leftover cl s'.1 s'.2.files := by
  have hundo {u : Undo} {todo : List Undo} {k : Kernel} (hu : u ≠ .unlink cl.path)
      (hs : Leftover cl (.undo u todo) k.files) : Leftover cl (undoAll todo) k.files := by
    simp only [Leftover, List.mem_cons, hu.symm, false_or] at hs
    refine leftover_undoAll (fun h => ?_) (fun h => ?_)
    · rwa [if_pos h] at hs
    · rwa [if_neg h] at hs
  cases Client.step_cases h with
  | notGranted | granted | noSocket | socket | bound | inUse | notBound | unlinkedStale =>
      exact hs.elim
  | connected | flags | noFlags | set | notSet =>
      trivial
  | notConnected k ctrl =>
      obtain ⟨hpath, hdest, _⟩ := haddressed
      simp [Leftover, hpath, hdest]
  | closed k fd todo s hsocket =>
      exact hundo (by simp) hs
  | freed k todo hpos =>
      exact hundo (by simp) hs
  | unlinked k k' path todo removed hk =>
      obtain rfl : path = cl.path := haddressed path (List.mem_cons_self ..)
      have hdest : destAddress cl.ctrlPath ≠ none := by
        simpa [Leftover] using hs
      refine leftover_undoAll (fun _ => hdest) fun _ => ?_
      simp [hdest, not_mem_of_unlink hobliging hk]

/-- The file has been created by the step, or it had been created before. -/
theorem created_concat
    {hist : List Call} {c : Call} (h : Created (hist ++ [c])) :
    Created hist ∨ ∃ fd address, c = .bind fd address .ok := by
  obtain ⟨fd, address, hmem⟩ := h
  rcases List.mem_append.mp hmem with hmem | hmem
  · exact .inl ⟨fd, address, hmem⟩
  · exact .inr ⟨fd, address, (List.mem_singleton.mp hmem).symm⟩

/-- A `bind` that succeeds creates the file. -/
theorem leftover_of_bind
    {s s' : OpenPoint × Kernel} {fd : Fd} {address : SunPath}
    (h : cl.step s (.bind fd address .ok) = some s') (haddressed : Addressed cl s.1 s.2) :
    Leftover cl s'.1 s'.2.files := by
  generalize hc : Call.bind fd address .ok = c at h
  cases Client.step_cases h with
  | bound k ctrl tries s hs hfree =>
      have hpath : ctrl.localAddress.path = cl.path := haddressed
      simp only [Client.connectTo]
      split
      · next hdest =>
          exact leftover_undoAll (by simp) (by simp [hpath, hdest])
      · trivial
  | notBound k ctrl tries r hr =>
      obtain ⟨_, _, rfl⟩ : _ ∧ _ ∧ BindResult.ok = r := by simpa using hc
      simp at hr
  | _ =>
      cases hc

theorem run_files
    {hist : List Call} {s : OpenPoint × Kernel}
    (hrun : Run cl.step Obliging (wpaCtrlOpen (some cl.ctrlPath), k₀) hist s) :
    OwnFile cl s.1 s.2.files ∧ (Created hist → Leftover cl s.1 s.2.files) := by
  have hinv : Addressed cl s.1 s.2 ∧ OwnFile cl s.1 s.2.files ∧
      (Created hist → Leftover cl s.1 s.2.files) := by
    refine hrun.invariant (I := fun hist s => Addressed cl s.1 s.2 ∧
      OwnFile cl s.1 s.2.files ∧ (Created hist → Leftover cl s.1 s.2.files)) ?_ ?_
    · exact ⟨trivial, trivial, fun ⟨_, _, h⟩ => absurd h List.not_mem_nil⟩
    · intro hist s c s' ⟨haddressed, hown, hleft⟩ hobliging hstep
      refine ⟨step_addressed hstep haddressed, step_ownFile hstep hobliging haddressed hown, ?_⟩
      intro hcreated
      rcases created_concat hcreated with hbefore | ⟨fd, address, rfl⟩
      · exact step_leftover hstep hobliging haddressed hown (hleft hbefore)
      · exact leftover_of_bind hstep haddressed
  exact hinv.2

/--
Where `wpa_ctrl_open` fails after it has created its socket file, the file is left behind
if and only if the control path is one of the file system that does not fit.
-/
theorem file_left_iff
    {hist : List Call} {k : Kernel}
    (hrun : Run cl.step Obliging (wpaCtrlOpen (some cl.ctrlPath), k₀) hist
      (.returned none, k))
    (hcreated : Created hist) :
    cl.path ∈ k.files ↔
      ¬ lit "@abstract:" <+: cl.ctrlPath.bytes ∧ sunPathSize ≤ cl.ctrlPath.bytes.length := by
  have hleft : cl.path ∈ k.files ↔ destAddress cl.ctrlPath = none := (run_files hrun).2 hcreated
  rw [hleft, destAddress_eq_none_iff]

/-- A process whose control path has one byte too many. -/
def longClient : Client :=
  ⟨⟨List.replicate sunPathSize '/'.toUInt8, by decide +kernel⟩, 7, 1⟩

/-- The process with the long path leaves its file behind. -/
theorem file_left_long :
    ∃ k, Run longClient.step Obliging
      (wpaCtrlOpen (some longClient.ctrlPath), ⟨fun _ => none, 0, ∅⟩)
      [.malloc true, .socket (some 3), .bind 3 firstAddress .ok, .close 3, .free]
      (.returned none, k) ∧ longClient.path ∈ k.files := by
  have hend : (run? longClient.step Obliging
      (wpaCtrlOpen (some longClient.ctrlPath), ⟨fun _ => none, 0, ∅⟩)
      [.malloc true, .socket (some 3), .bind 3 firstAddress .ok, .close 3, .free]).map Prod.fst =
        some (.returned none) := by
    decide +kernel
  obtain ⟨⟨p, k⟩, hs, rfl⟩ := Option.map_eq_some_iff.mp hend
  exact ⟨k, run_of_run? hs, (file_left_iff (run_of_run? hs)
    ⟨3, firstAddress, by decide +kernel⟩).mpr (by decide +kernel)⟩

theorem run_leftover
    {hist : List Call} {s₀ s : OpenPoint × Kernel} (haddressed : Addressed cl s₀.1 s₀.2)
    (hown : OwnFile cl s₀.1 s₀.2.files) (hleft : Leftover cl s₀.1 s₀.2.files)
    (hrun : Run cl.step Obliging s₀ hist s) :
    Leftover cl s.1 s.2.files := by
  have hinv : Addressed cl s.1 s.2 ∧ OwnFile cl s.1 s.2.files ∧ Leftover cl s.1 s.2.files := by
    refine hrun.invariant (I := fun _ s => Addressed cl s.1 s.2 ∧
      OwnFile cl s.1 s.2.files ∧ Leftover cl s.1 s.2.files) ⟨haddressed, hown, hleft⟩ ?_
    intro hist s c s' ⟨haddressed, hown, hleft⟩ hobliging hstep
    exact ⟨step_addressed hstep haddressed, step_ownFile hstep hobliging haddressed hown,
      step_leftover hstep hobliging haddressed hown hleft⟩
  exact hinv.2.2

theorem run_otherFiles
    {A : OpenPoint × Kernel → Call → Prop} {hist : List Call} {s₀ s : OpenPoint × Kernel}
    (haddressed : Addressed cl s₀.1 s₀.2) (hrun : Run cl.step A s₀ hist s) {path : Binary}
    (hne : path ≠ cl.path) :
    path ∈ s.2.files ↔ path ∈ s₀.2.files := by
  have hinv : Addressed cl s.1 s.2 ∧ (path ∈ s.2.files ↔ path ∈ s₀.2.files) := by
    refine hrun.invariant
      (I := fun _ s => Addressed cl s.1 s.2 ∧ (path ∈ s.2.files ↔ path ∈ s₀.2.files))
      ⟨haddressed, Iff.rfl⟩ ?_
    intro hist s c s' ⟨haddressed, hsame⟩ _ hstep
    exact ⟨step_addressed hstep haddressed,
      (step_otherFiles hstep haddressed hne).trans hsame⟩
  exact hinv.2

/-- After `wpa_ctrl_open` and `wpa_ctrl_close` all is as before, without the socket file. -/
theorem closed_as_before
    {hist hist' : List Call} {ctrl : Ctrl} {k k' : Kernel}
    (hopen : Run cl.step Obliging (wpaCtrlOpen (some cl.ctrlPath), k₀) hist
      (.returned (some ctrl), k))
    (hclose : Run cl.step Obliging (wpaCtrlClose (some ctrl), k) hist' (.returned none, k')) :
    k'.sockets = k₀.sockets ∧ k'.allocated = k₀.allocated ∧
      k'.files = k₀.files.erase cl.path := by
  have haddressed₀ : Addressed cl (wpaCtrlOpen (some cl.ctrlPath)) k₀ := trivial
  obtain ⟨howns, hpath, hdest, hconnected⟩ := open_owns hopen
  have hexists : cl.path ∈ k.files := (run_files hopen).1
  have haddressed : Addressed cl (wpaCtrlClose (some ctrl)) k := by
    simp [wpaCtrlClose, undoAll, Addressed, hpath]
  have hown : OwnFile cl (wpaCtrlClose (some ctrl)) k.files := ⟨by simp, fun _ => hexists⟩
  have hleft : Leftover cl (wpaCtrlClose (some ctrl)) k.files := by
    simpa [wpaCtrlClose, undoAll, Leftover, hpath] using Option.isSome_iff_ne_none.mp hdest
  have hend : Owns k₀ (.returned none) k' := by
    have howns' : Owns k₀ (wpaCtrlClose (some ctrl)) k := ⟨howns.sockets, howns.allocated⟩
    exact (run_owns howns' haddressed hclose).1
  have hbalanced : Balanced cl k₀ (.returned none) k' := balanced_of_owns hend trivial
  obtain ⟨hsockets, hallocated⟩ := hbalanced.null rfl
  refine ⟨hsockets, hallocated, Finset.ext fun path => ?_⟩
  rw [Finset.mem_erase]
  by_cases hne : path = cl.path
  · subst hne
    have hgone : cl.path ∈ k'.files ↔ destAddress cl.ctrlPath = none :=
      run_leftover haddressed hown hleft hclose
    simp [hgone, Option.isSome_iff_ne_none.mp hdest]
  · have hkept : path ∈ k'.files ↔ path ∈ k.files := run_otherFiles haddressed hclose hne
    have hkept₀ : path ∈ k.files ↔ path ∈ k₀.files := run_otherFiles haddressed₀ hopen hne
    simp [hne, hkept, hkept₀]

/-- Opened over the stale file and closed again, the first process leaves nothing. -/
theorem closed_as_before_stale :
    ∃ k : Kernel, k.sockets = staleKernel.sockets ∧ k.allocated = 0 ∧ k.files = ∅ := by
  have hopen : (run? firstClient.step Obliging
      (wpaCtrlOpen (some firstClient.ctrlPath), staleKernel) staleRun).map Prod.fst =
        some (.returned (some ⟨3, firstAddress, firstDest⟩)) := by
    decide +kernel
  have hclose : (run? firstClient.step Obliging
      (wpaCtrlOpen (some firstClient.ctrlPath), staleKernel) staleRun).bind (fun s =>
        (run? firstClient.step Obliging (wpaCtrlClose (some ⟨3, firstAddress, firstDest⟩), s.2)
          [.unlink firstClient.path true, .close 3, .free]).map Prod.fst) =
        some (.returned none) := by
    decide +kernel
  obtain ⟨⟨p, k⟩, hs, rfl⟩ := Option.map_eq_some_iff.mp hopen
  rw [hs, Option.bind_some, Option.map_eq_some_iff] at hclose
  obtain ⟨⟨p', k'⟩, hs', rfl⟩ := hclose
  obtain ⟨hsockets, hallocated, hfiles⟩ :=
    closed_as_before (run_of_run? hs) (run_of_run? hs')
  refine ⟨k', hsockets, hallocated, hfiles.trans ?_⟩
  decide +kernel

end Files

end WpaCtrl
end WpaSupplicant
