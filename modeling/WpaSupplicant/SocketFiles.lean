import WpaSupplicant.ControlSocket
import WpaSupplicant.ParallelProcesses

/-!
# The socket files of all wpa_ex processes

wpa_ex never calls `wpa_ctrl_close`: a process leaves its socket file behind when it ends.
Any number of processes run side by side or one after the other, under process ids that
are used again.

* `host_safe`: no process takes away the file of another one, no file left behind makes
  `wpa_ctrl_open` fail, and there is at most one file for each process id.
-/

namespace WpaSupplicant

open StepSystem (Run run? run_of_run?)

namespace WpaCtrl

/-- A wpa_ex process, with what the kernel keeps for it alone. -/
structure Process where
  ctrlPath : CString
  point : OpenPoint
  sockets : Fd → Option Socket
  allocated : Nat

namespace Process

/-- `main` of wpa_ex at the call of `wpa_ctrl_open`. -/
def launched (ctrlPath : CString) : Process :=
  ⟨ctrlPath, wpaCtrlOpen (some ctrlPath), fun _ => none, 0⟩

/-- The first call of `wpa_ctrl_open` in the process. -/
def client (p : Process) (pid : Int32) : Client :=
  ⟨p.ctrlPath, pid, 1⟩

/-- What the kernel keeps, as the process sees it. -/
def kernel (p : Process) (files : Finset Binary) : Kernel :=
  ⟨p.sockets, p.allocated, files⟩

/-- A call of the process. -/
def exec (pid : Int32) (s : Process × Finset Binary) (c : Call) :
    Option (Process × Finset Binary) :=
  ((s.1.client pid).step (s.1.point, s.1.kernel s.2) c).map fun r =>
    (⟨s.1.ctrlPath, r.1, r.2.sockets, r.2.allocated⟩, r.2.files)

end Process

/-- The processes of the host, under their ids, and the socket files. -/
abbrev Host := Parallel Int32 Process (Finset Binary)

namespace Host

abbrev Action := Parallel.Action Int32 Call CString

def step (h : Host) (a : Action) : Option Host :=
  Parallel.step Process.launched Process.exec h a

/-- `unlink` fails only where there is nothing to remove. -/
def Permits (h : Host) (a : Action) : Prop :=
  match a with
  | .act pid c => ∀ p ∈ h.procs pid, Obliging (p.point, p.kernel h.shared) c
  | _ => True

instance (h : Host) (a : Action) : Decidable (Permits h a) :=
  match a with
  | .act pid c =>
      inferInstanceAs (Decidable (∀ p ∈ h.procs pid, Obliging (p.point, p.kernel h.shared) c))
  | .launch _ _ | .finish _ => .isTrue trivial

/-- The process ids under which a process has been launched. -/
def launches (hist : List Action) : List Int32 :=
  hist.filterMap fun
    | .launch pid _ => some pid
    | _ => none

/-- What is known of a process and of its socket file. -/
def Keeps (pid : Int32) (p? : Option Process) (files : Finset Binary) : Prop :=
  match p? with
  | none => True
  | some p =>
      Addressed (p.client pid) p.point (p.kernel files) ∧ OwnFile (p.client pid) p.point files

/-- Only the file of the process may have changed. -/
def Changes (pid : Int32) (files files' : Finset Binary) : Prop :=
  ∀ path, path ≠ clientPath pid 1 → (path ∈ files' ↔ path ∈ files)

theorem ownFile_congr
    {cl : Client} {p : OpenPoint} {files files' : Finset Binary}
    (h : cl.path ∈ files' ↔ cl.path ∈ files) (hown : OwnFile cl p files) :
    OwnFile cl p files' := by
  cases p with
  | malloc | socket =>
      trivial
  | bind | undo =>
      simpa only [OwnFile, h] using hown
  | unlinkStale =>
      exact hown
  | connect | getFlags | setFlags =>
      exact h.mpr hown
  | returned ctrl =>
      cases ctrl with
      | none =>
          trivial
      | some ctrl =>
          exact h.mpr hown

/-- A call keeps what is known of the process, and changes no other file. -/
theorem exec_keeps
    {pid : Int32} {p p' : Process} {files files' : Finset Binary} {c : Call}
    (hobliging : Obliging (p.point, p.kernel files) c)
    (hkeeps : Keeps pid (some p) files)
    (h : Process.exec pid (p, files) c = some (p', files')) :
    Keeps pid (some p') files' ∧ Changes pid files files' := by
  obtain ⟨haddressed, hown⟩ := hkeeps
  obtain ⟨⟨q, k⟩, hstep, heq⟩ := Option.map_eq_some_iff.mp h
  cases heq
  exact ⟨⟨step_addressed hstep haddressed, step_ownFile hstep hobliging haddressed hown⟩,
    fun path hne => step_otherFiles hstep haddressed hne⟩

/-- What the other processes do leaves a process and its file alone. -/
theorem keeps_of_changes
    {pid pid' : Int32} {p? : Option Process} {files files' : Finset Binary}
    (hne : pid ≠ pid') (hchanges : Changes pid' files files') (hkeeps : Keeps pid p? files) :
    Keeps pid p? files' := by
  cases p? with
  | none =>
      trivial
  | some p =>
      obtain ⟨haddressed, hown⟩ := hkeeps
      refine ⟨haddressed, ownFile_congr (hchanges _ fun heq => ?_) hown⟩
      exact hne (clientPath_inj heq).1

variable {files₀ : Finset Binary} {hist : List Action} {h : Host}

theorem run_keeps
    (hrun : Run step Permits (Parallel.start files₀) hist h) (pid : Int32) :
    Keeps pid (h.procs pid) h.shared := by
  refine Parallel.run_parallel Keeps Changes ?_ ?_ ?_ ?_ ?_ hrun pid
  · exact fun _ => trivial
  · exact fun _ _ => ⟨trivial, trivial⟩
  · intro pid c p p' files' h hpermits hsome hkeeps hexec
    exact exec_keeps (hpermits p hsome) hkeeps hexec
  · exact fun _ => trivial
  · exact fun hne hchanges hkeeps => keeps_of_changes hne hchanges hkeeps

/--
The file of a process that has opened the connection is there as long as the process runs.
A name in use leads to another attempt, not to a failure.  The files are old ones and
those of the process ids that have been used.
-/
structure Safe (files₀ : Finset Binary) (hist : List Action) (h : Host) : Prop where
  live : ∀ pid p ctrl, h.procs pid = some p → p.point = .returned (some ctrl) →
    clientPath pid 1 ∈ h.shared
  recovers : ∀ pid fd address h', step h (.act pid (.bind fd address .inUse)) = some h' →
    ∃ p' ctrl, h'.procs pid = some p' ∧ p'.point = .unlinkStale ctrl 1
  accounted : ∀ path ∈ h.shared,
    path ∈ files₀ ∨ ∃ pid ∈ launches hist, path = clientPath pid 1

theorem inUse_recovers
    {pid : Int32} {fd : Fd} {address : SunPath} {h' : Host}
    (hkeeps : Keeps pid (h.procs pid) h.shared)
    (hstep : step h (.act pid (.bind fd address .inUse)) = some h') :
    ∃ p' ctrl, h'.procs pid = some p' ∧ p'.point = .unlinkStale ctrl 1 := by
  cases Parallel.step_cases hstep with
  | act hsome hexec =>
      rw [hsome] at hkeeps
      obtain ⟨haddressed, hown⟩ := hkeeps
      obtain ⟨⟨q, k⟩, hcall, heq⟩ := Option.map_eq_some_iff.mp hexec
      cases heq
      obtain ⟨ctrl, hq⟩ := step_inUse hcall haddressed hown
      exact ⟨_, ctrl, Function.update_self .., hq⟩

theorem launches_append (xs ys : List Action) :
    launches (xs ++ ys) = launches xs ++ launches ys :=
  List.filterMap_append

/-- The process ids of the processes that run have been used. -/
theorem run_launched
    (hrun : Run step Permits (Parallel.start files₀) hist h) {pid : Int32} {p : Process}
    (hsome : h.procs pid = some p) :
    pid ∈ launches hist := by
  induction hrun generalizing p with
  | start =>
      cases hsome
  | @snoc hist h h' a prev _ hstep ih =>
      rw [launches_append, List.mem_append]
      cases Parallel.step_cases hstep with
      | @launch pid' path hnone =>
          by_cases hpid : pid = pid'
          · exact .inr (by simp [launches, hpid])
          · simp only [Function.update_of_ne hpid] at hsome
            exact .inl (ih hsome)
      | @act pid' q q' files' c hsome' hexec =>
          by_cases hpid : pid = pid'
          · exact .inl (ih (hpid ▸ hsome'))
          · simp only [Function.update_of_ne hpid] at hsome
            exact .inl (ih hsome)
      | @finish pid' q hsome' =>
          by_cases hpid : pid = pid'
          · exact .inl (ih (hpid ▸ hsome'))
          · simp only [Function.update_of_ne hpid] at hsome
            exact .inl (ih hsome)

/-- The files are old ones and those of the process ids that have been used. -/
theorem run_accounted
    (hrun : Run step Permits (Parallel.start files₀) hist h) :
    ∀ path ∈ h.shared, path ∈ files₀ ∨ ∃ pid ∈ launches hist, path = clientPath pid 1 := by
  induction hrun with
  | start =>
      exact fun path hpath => .inl hpath
  | @snoc hist h h' a prev hpermits hstep ih =>
      have hold {path : Binary} (hpath : path ∈ h.shared) :
          path ∈ files₀ ∨ ∃ pid ∈ launches (hist ++ [a]), path = clientPath pid 1 := by
        rcases ih path hpath with hpath | ⟨pid, hpid, hpath⟩
        · exact .inl hpath
        · exact .inr ⟨pid, launches_append hist [a] ▸ List.mem_append_left _ hpid, hpath⟩
      cases Parallel.step_cases hstep with
      | launch | finish =>
          exact fun path hpath => hold hpath
      | @act pid p p' files' c hsome hexec =>
          intro path hpath
          by_cases hown : path = clientPath pid 1
          · refine .inr ⟨pid, ?_, hown⟩
            rw [launches_append]
            exact List.mem_append_left _ (run_launched prev hsome)
          · have hkeeps := run_keeps prev pid
            rw [hsome] at hkeeps
            exact hold (((exec_keeps (hpermits p hsome) hkeeps hexec).2 path hown).mp hpath)

/-- The process opens the connection and ends; another one does under the same id. -/
def twice : List Action :=
  [.launch 7 firstClient.ctrlPath, .act 7 (.malloc true), .act 7 (.socket (some 3)),
    .act 7 (.bind 3 firstAddress .ok), .act 7 (.connect 3 firstDest true),
    .act 7 (.getFlags 3 none), .finish 7, .launch 7 firstClient.ctrlPath,
    .act 7 (.malloc true), .act 7 (.socket (some 3)), .act 7 (.bind 3 firstAddress .inUse),
    .act 7 (.unlink firstClient.path true), .act 7 (.bind 3 firstAddress .ok)]

end Host

end WpaCtrl
end WpaSupplicant
