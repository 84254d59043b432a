import Esound.Library.DescriptorTable
import Esound.Startup

/-!
# A daemon that a client starts

On the local host `esd_open_sound` starts a daemon where none listens, and waits for what it
reports through a pipe. `main` closes what it inherits before it opens anything of its own.
-/

open Library.DescriptorTable Library.DescriptorTable.Table Library.Transition

namespace Esound

/-- What a descriptor leads to; `tried` is the socket of `esd_connect_unix`, which stays open when
nobody answers. -/
inductive File
  | pipe
  | null
  | tried
  | listener
  | device
  | other (n : ℕ)
  deriving DecidableEq

inductive SysCall
  | opens (f : File)
  | dup (fd : ℕ)
  | close (fd : ℕ)
  | write (fd : ℕ) (c : Octet)
  deriving DecidableEq

/-- The table afterwards, and what is written where. -/
def SysCall.apply (t : Table File) : SysCall → Table File × List (File × Octet)
  | opens f => (t.install f, [])
  | dup fd => ((t.get fd).elim t fun f => t.install f, [])
  | close fd => (t.close fd, [])
  | write fd c => (t, (t.get fd).toList.map (·, c))

def perform (t : Table File) : List SysCall → Table File × List (File × Octet)
  | [] => (t, [])
  | call :: calls =>
    let (t, out) := call.apply t
    let (t, outs) := perform t calls
    (t, out ++ outs)

/-! ## The daemon -/

/-- Where `esd_open_sound` stands once it has forked. -/
inductive SpawnPlace
  | waiting
  | selecting
  | polling
  | reading
  | connecting
  | returned (socketOut : Option ℕ)
  deriving DecidableEq

inductive SpawnInput
  | waitpid
  | select (ret : ℤ)
  | poll (rv : ℤ) (pollin : Bool)
  | read (n : ℤ)
  /-- `esd_connect_unix`, `esd_connect_tcpip` and `esd_send_auth` -/
  | connect (socketOut : Option ℕ)

/-- A step of the client, and what it leaves in the pipe; `none` for what cannot come there. `select`
and `poll` answer what they like; `read` finds an octet where there is one. -/
def SpawnPlace.advance (pipe : List Octet) : SpawnPlace → SpawnInput → Option (SpawnPlace × List Octet)
  | .waiting, .waitpid => some (.selecting, pipe)
  | .selecting, .select ret => some (if ret = 1 then .polling else .returned none, pipe)
  | .polling, .poll rv pollin =>
    some (if rv < 1 ∨ pollin = false then .returned none else .reading, pipe)
  | .reading, .read n =>
    if n = 1 then
      match pipe with
      | [] => none
      | _ :: pipe => some (.connecting, pipe)
    else some (.returned none, pipe)
  | .connecting, .connect socketOut => some (.returned socketOut, pipe)
  | _, _ => none

/-- The client, the pipe, and the daemon with the calls it has yet to make. -/
structure SpawnWorld where
  place : SpawnPlace
  pipe : List Octet
  table : Table File
  calls : List SysCall
  written : List (File × Octet)

inductive SpawnMove
  | client (i : SpawnInput)
  | daemon

namespace SpawnWorld

def start (inherited : Table File) (calls : List SysCall) : SpawnWorld :=
  ⟨.waiting, [], inherited, calls, []⟩

def step (w : SpawnWorld) : SpawnMove → Option SpawnWorld
  | .client i => (w.place.advance w.pipe i).map fun r => { w with place := r.1, pipe := r.2 }
  | .daemon =>
    match w.calls with
    | [] => none
    | call :: calls =>
      let (table, out) := call.apply w.table
      some { w with
        pipe := w.pipe ++ (out.filter (·.1 = .pipe)).map (·.2)
        table := table
        calls := calls
        written := w.written ++ out }

end SpawnWorld

/-! ## What is written -/

section Perform

variable {t : Table File} {call : SysCall} {calls calls' : List SysCall}

/-- Without the pipe. -/
def Cut (t : Table File) : Prop := ∀ fd, t.get fd ≠ some .pipe

theorem Cut.apply (h : Cut t) (hcall : call ≠ .opens .pipe) :
    Cut (call.apply t).1 ∧ ∀ out ∈ (call.apply t).2, out.1 ≠ .pipe := by
  have hinstall : ∀ f, f ≠ .pipe → Cut (t.install f) := by
    intro f hf fd
    rw [get_install]
    split_ifs
    · exact fun heq => hf (Option.some.inj heq)
    · exact h fd
  cases call with
  | opens f => exact ⟨hinstall f fun hf => hcall (congrArg _ hf), List.forall_mem_nil _⟩
  | dup fd =>
    refine ⟨?_, List.forall_mem_nil _⟩
    simp only [SysCall.apply]
    cases hget : t.get fd with
    | none => exact h
    | some f => exact hinstall f fun hf => h fd (hget.trans (congrArg some hf))
  | close n =>
    refine ⟨fun fd => ?_, List.forall_mem_nil _⟩
    simp only [SysCall.apply, get_close]
    split_ifs
    · simp
    · exact h fd
  | write fd c =>
    refine ⟨h, fun out hout hpipe => ?_⟩
    obtain ⟨f, hf, rfl⟩ := List.mem_map.mp hout
    exact h fd ((Option.mem_toList.mp hf).trans (congrArg some hpipe))

theorem Cut.perform (h : Cut t) (hcalls : ∀ call ∈ calls, call ≠ .opens .pipe) :
    ∀ out ∈ (perform t calls).2, out.1 ≠ .pipe := by
  induction calls generalizing t with
  | nil => exact List.forall_mem_nil _
  | cons call calls ih =>
    obtain ⟨hcut, hout⟩ := h.apply (hcalls call List.mem_cons_self)
    intro out hmem
    rcases List.mem_append.mp hmem with hmem | hmem
    · exact hout out hmem
    · exact ih hcut (fun call hcall => hcalls call (List.mem_cons_of_mem _ hcall)) out hmem

end Perform

section Spawn

variable {maxFds : ℕ} {env : ConfigEnv} {args : List (List Octet)} {listens : Bool}
  {answer : ℕ → AudioAnswer} {inherited : Table File} {d : Started} {w w' : SpawnWorld}
  {a : SpawnMove} {as : List SpawnMove}

/-- The client has not got past the pipe. -/
def SpawnPlace.Waits : SpawnPlace → Prop
  | connecting => False
  | returned socketOut => socketOut = none
  | _ => True

theorem SpawnPlace.Waits.advance {place place' : SpawnPlace} {pipe : List Octet} {i : SpawnInput}
    (h : place.Waits) (hstep : place.advance [] i = some (place', pipe)) : place'.Waits ∧ pipe = [] := by
  cases place with
  | connecting => exact h.elim
  | waiting =>
    cases i <;> cases hstep
    exact ⟨trivial, rfl⟩
  | selecting =>
    cases i <;> cases hstep
    split_ifs
    · exact ⟨trivial, rfl⟩
    · exact ⟨rfl, rfl⟩
  | polling =>
    cases i <;> cases hstep
    split_ifs
    · exact ⟨rfl, rfl⟩
    · exact ⟨trivial, rfl⟩
  | reading =>
    cases i with
    | read n =>
      simp only [SpawnPlace.advance] at hstep
      split_ifs at hstep
      cases hstep
      exact ⟨rfl, rfl⟩
    | _ => cases hstep
  | returned socketOut => cases i <;> cases hstep

/-- What has been written, and what will be, is what the daemon writes by itself. -/
structure SpawnWorld.Waits (final : Table File × List (File × Octet)) (w : SpawnWorld) : Prop where
  table : (perform w.table w.calls).1 = final.1
  written : w.written ++ (perform w.table w.calls).2 = final.2
  pipe : w.pipe = []
  place : w.place.Waits

theorem SpawnWorld.Waits.step {final : Table File × List (File × Octet)}
    (hfinal : ∀ out ∈ final.2, out.1 ≠ .pipe) (hw : w.Waits final) (h : w.step a = some w') :
    w'.Waits final := by
  cases a with
  | client i =>
    obtain ⟨⟨place, pipe⟩, hplace, rfl⟩ := Option.map_eq_some_iff.mp h
    rw [hw.pipe] at hplace
    obtain ⟨hwaits, hpipe⟩ := hw.place.advance hplace
    exact { hw with pipe := hpipe, place := hwaits }
  | daemon =>
    cases hcalls : w.calls with
    | nil => simp [SpawnWorld.step, hcalls] at h
    | cons call calls =>
      simp only [SpawnWorld.step, hcalls, Option.some.injEq] at h
      subst h
      have hwritten := hw.written
      have htable := hw.table
      rw [hcalls] at hwritten htable
      refine ⟨htable, by rw [← hwritten]; simp [perform], ?_, hw.place⟩
      have hnone : (call.apply w.table).2.filter (·.1 = .pipe) = [] := by
        refine List.filter_eq_nil_iff.mpr fun out hout hpipe => hfinal out ?_ (of_decide_eq_true hpipe)
        rw [← hwritten]
        exact List.mem_append_right _ (List.mem_append_left _ hout)
      simp only [hw.pipe, hnone, List.map_nil, List.append_nil]

/-- What the daemon that starts has opened, from the lowest descriptor on. -/
def Settings.files (m : Settings) : List File :=
  if m.esdUseTcpip then [.null, .null, .null, .listener, .device]
  else [.null, .null, .null, .tried, .listener, .device]

end Spawn

end Esound
