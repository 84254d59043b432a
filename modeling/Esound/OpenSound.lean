import Esound.HostString
import Esound.Config
import Esound.Library.DescriptorTable

/-!
# The connection that the library opens

`esd_open_sound` looks for a daemon in several places, starts one where none is found, and has it
authorize the connection. Whatever fails on the way, the program is left with the connection that
it is given and with nothing else.
-/

open Library.CString Library.DescriptorTable Library.DescriptorTable.Table

namespace Esound

/-! ## The host -/

/-- The host that is asked for, that of `$ESPEAKER` if none is, or else that of the display. -/
def soundHost (rhost espeaker display : Option (List Octet)) : Option (List Octet) :=
  let host := rhost.or espeaker
  match host, display with
  | some (b :: bs), _ => some (b :: bs)
  | _, none => host
  | _, some display =>
    let name := display.takeWhile (· ≠ colon)
    if name = [] then host else some (name.take 255)

def isHostLocal (hostname : List Octet) : Option (List Octet) → Bool
  | none | some [] => true
  | some host => decide (host.map lower = hostname.map lower) || sameLetters host "localhost"

/-! ## The sockets -/

/-- What a descriptor of the program leads to. -/
inductive Opened
  | socket
  | readEnd
  | writeEnd
  | other (n : ℕ)
  deriving DecidableEq

/-- What comes of a try: no socket, one whose options cannot be set, nobody who answers, or a
connection. -/
inductive SocketTry
  | none
  | unset
  | refused
  | connects
  deriving DecidableEq

def trySocket (t : Table Opened) : SocketTry → Table Opened × Option ℕ
  | .none => (t, Option.none)
  | .unset | .refused => ((t.install .socket).close t.lowest, Option.none)
  | .connects => (t.install .socket, some t.lowest)

def esdConnectUnix (t : Table Opened) (answer : SocketTry) : Table Opened × Option ℕ := trySocket t answer

/-- One try for each address of the host: there is none if it is not found, and one without IPv6. -/
def esdConnectTcpip (t : Table Opened) : List SocketTry → Table Opened × Option ℕ
  | [] => (t, none)
  | answer :: answers =>
    let r := trySocket t answer
    if answer = .refused then esdConnectTcpip r.1 answers else r

/-! ## The call -/

/-- What the world answers to one call of `esd_open_sound`: the environment, the tries, the
configuration, `select` and `read_timeout` on the pipe, and `esd_send_auth`. -/
structure SoundEnv where
  espeaker : Option (List Octet)
  display : Option (List Octet)
  hostname : List Octet
  access : Bool
  unix : SocketTry
  tcp : List SocketTry
  noSpawn : Bool
  executable : Bool
  pipe : Bool
  select : ℤ
  readTimeout : ℤ
  unixAfter : SocketTry
  tcpAfter : List SocketTry
  auth : ℤ

structure SoundOpened where
  table : Table Opened
  socketOut : Option ℕ
  spawned : Bool

namespace SoundEnv

def host (e : SoundEnv) (rhost : Option (List Octet)) : Option (List Octet) :=
  soundHost rhost e.espeaker e.display

def useUnix (e : SoundEnv) (rhost : Option (List Octet)) : Bool :=
  isHostLocal e.hostname (e.host rhost) && e.access

/-- Behind `finish_connect`: whatever `esd_send_auth` returns but 0, the socket is kept. -/
def finishConnect (e : SoundEnv) (t : Table Opened) (socketOut : Option ℕ) : Table Opened × Option ℕ :=
  match socketOut with
  | none => (t, none)
  | some fd => if e.auth = 0 then (t.close fd, none) else (t, some fd)

/-- The daemon is found now if it has told that it is there. -/
def connectAfter (e : SoundEnv) (t : Table Opened) : Table Opened × Option ℕ :=
  if e.select = 1 ∧ e.readTimeout = 1 then
    let r := esdConnectUnix t e.unixAfter
    if r.2 = none then esdConnectTcpip r.1 e.tcpAfter else r
  else (t, none)

def maySpawn (e : SoundEnv) : Bool := !e.noSpawn && e.executable && e.pipe

/-- A daemon is started, which has the other end of a pipe. -/
def spawn (e : SoundEnv) (t : Table Opened) : Table Opened × Option ℕ :=
  let readEnd := t.lowest
  let t := t.install .readEnd
  let writeEnd := t.lowest
  let t := (t.install .writeEnd).close writeEnd
  let r := e.connectAfter t
  (r.1.close readEnd, r.2)

/-- The connections that are tried before a daemon is started. -/
def connect (e : SoundEnv) (rhost : Option (List Octet)) (t : Table Opened) : Table Opened × Option ℕ :=
  let r := if e.useUnix rhost then esdConnectUnix t e.unix else (t, none)
  if r.2 = none then esdConnectTcpip r.1 e.tcp else r

def esdOpenSound (e : SoundEnv) (rhost : Option (List Octet)) (t : Table Opened) : SoundOpened :=
  let r := e.connect rhost t
  let spawned := decide (r.2 = none) && isHostLocal e.hostname (e.host rhost) && e.maySpawn
  let r := if spawned then e.spawn r.1 else r
  let r := e.finishConnect r.1 r.2
  ⟨r.1, r.2, spawned⟩

end SoundEnv

/-! ## What is left open -/

/-- Nothing is open that was not before, but the socket. -/
structure LeavesOpen (t : Table Opened) (r : Table Opened × Option ℕ) : Prop where
  table : ∀ fd, r.1.get fd = if r.2 = some fd then some .socket else t.get fd
  free : ∀ fd, r.2 = some fd → t.get fd = none

section Sockets

variable {t u : Table Opened} {r : Table Opened × Option ℕ}

theorem LeavesOpen.nothing (t : Table Opened) : LeavesOpen t (t, none) :=
  ⟨fun _ => rfl, fun _ h => by cases h⟩

theorem LeavesOpen.trans (h : LeavesOpen t (u, none)) (h' : LeavesOpen u r) : LeavesOpen t r := by
  have hsame : ∀ fd, u.get fd = t.get fd := fun fd => h.table fd
  exact ⟨fun fd => by rw [h'.table, hsame], fun fd hfd => by rw [← hsame]; exact h'.free fd hfd⟩

theorem trySocket_leaves (t : Table Opened) (answer : SocketTry) : LeavesOpen t (trySocket t answer) := by
  have hclosed : LeavesOpen t ((t.install .socket).close t.lowest, none) :=
    ⟨fun fd => get_close_install .socket t fd, fun _ h => by cases h⟩
  cases answer with
  | none => exact .nothing t
  | unset | refused => exact hclosed
  | connects =>
    refine ⟨fun fd => ?_, fun fd hfd => ?_⟩
    · simp only [trySocket, get_install, Option.some.injEq, eq_comm (a := fd)]
    · cases hfd
      exact get_lowest t

theorem esdConnectTcpip_leaves (t : Table Opened) (answers : List SocketTry) :
    LeavesOpen t (esdConnectTcpip t answers) := by
  induction answers generalizing t with
  | nil => exact .nothing t
  | cons answer answers ih =>
    simp only [esdConnectTcpip]
    split_ifs with hrefused
    · subst hrefused
      have hfirst : LeavesOpen t ((trySocket t .refused).1, none) := trySocket_leaves t .refused
      exact hfirst.trans (ih _)
    · exact trySocket_leaves t answer

/-- A second try comes behind a first that failed. -/
theorem LeavesOpen.orElse (h : LeavesOpen t r) (answers : List SocketTry) :
    LeavesOpen t (if r.2 = none then esdConnectTcpip r.1 answers else r) := by
  split_ifs with hnone
  · have hfirst : LeavesOpen t (r.1, none) := by
      rw [← hnone]
      exact h
    exact hfirst.trans (esdConnectTcpip_leaves r.1 answers)
  · exact h

theorem connect_leaves (e : SoundEnv) (rhost : Option (List Octet)) (t : Table Opened) :
    LeavesOpen t (e.connect rhost t) := by
  have hfirst : LeavesOpen t (if e.useUnix rhost then esdConnectUnix t e.unix else (t, none)) := by
    split_ifs
    · exact trySocket_leaves t e.unix
    · exact .nothing t
  exact hfirst.orElse e.tcp

theorem connectAfter_leaves (e : SoundEnv) (t : Table Opened) : LeavesOpen t (e.connectAfter t) := by
  by_cases htold : e.select = 1 ∧ e.readTimeout = 1
  · rw [SoundEnv.connectAfter, if_pos htold]
    exact (trySocket_leaves t e.unixAfter).orElse e.tcpAfter
  · rw [SoundEnv.connectAfter, if_neg htold]
    exact .nothing t

theorem get_pipe (t : Table Opened) (fd : ℕ) :
    (((t.install .readEnd).install .writeEnd).close (t.install .readEnd).lowest).get fd =
      if fd = t.lowest then some .readEnd else t.get fd := by
  rw [get_close_install, get_install]

/-- Both ends of the pipe are closed again. -/
theorem spawn_leaves (e : SoundEnv) (t : Table Opened) : LeavesOpen t (e.spawn t) := by
  obtain ⟨u, hu⟩ : ∃ u, ((t.install .readEnd).install .writeEnd).close (t.install .readEnd).lowest = u :=
    ⟨_, rfl⟩
  have hpipe : ∀ fd, u.get fd = if fd = t.lowest then some .readEnd else t.get fd := by
    rw [← hu]
    exact get_pipe t
  have h := connectAfter_leaves e u
  have hother : (e.connectAfter u).2 ≠ some t.lowest := by
    intro hfd
    have hfree := h.free _ hfd
    rw [hpipe, if_pos rfl] at hfree
    cases hfree
  have hspawn : e.spawn t = ((e.connectAfter u).1.close t.lowest, (e.connectAfter u).2) := by
    rw [← hu]
    rfl
  rw [hspawn]
  refine ⟨fun fd => ?_, fun fd hfd => ?_⟩
  · rw [get_close, h.table, hpipe]
    rcases eq_or_ne fd t.lowest with rfl | hne
    · simp [hother, get_lowest]
    · simp [hne]
  · have hne : fd ≠ t.lowest := by
      rintro rfl
      exact hother hfd
    have hfree := h.free fd hfd
    rwa [hpipe, if_neg hne] at hfree

theorem LeavesOpen.finishConnect (h : LeavesOpen t r) (e : SoundEnv) :
    LeavesOpen t (e.finishConnect r.1 r.2) := by
  obtain ⟨u, socketOut⟩ := r
  cases socketOut with
  | none => exact h
  | some fd =>
    simp only [SoundEnv.finishConnect]
    split_ifs
    · refine ⟨fun fd' => ?_, fun _ hfd' => by cases hfd'⟩
      rw [get_close, h.table]
      rcases eq_or_ne fd' fd with rfl | hne
      · simp [h.free fd' rfl]
      · simp [hne, hne.symm]
    · exact h

end Sockets

/-! ## What is found -/

/-- The first address that does not refuse is one where somebody answers. -/
def ReachesTcp (answers : List SocketTry) : Prop := (answers.dropWhile (· = .refused)).head? = some .connects

namespace SoundEnv

/-- There is a daemon already. -/
def Finds (e : SoundEnv) (rhost : Option (List Octet)) : Prop :=
  (e.useUnix rhost = true ∧ e.unix = .connects) ∨ ReachesTcp e.tcp

/-- The daemon that was started says so and can be found. -/
def FindsAfter (e : SoundEnv) : Prop :=
  e.select = 1 ∧ e.readTimeout = 1 ∧ (e.unixAfter = .connects ∨ ReachesTcp e.tcpAfter)

end SoundEnv

section Found

theorem trySocket_isSome (t : Table Opened) (answer : SocketTry) :
    (trySocket t answer).2.isSome = true ↔ answer = .connects := by
  cases answer <;> simp [trySocket]

theorem esdConnectTcpip_isSome (t : Table Opened) (answers : List SocketTry) :
    (esdConnectTcpip t answers).2.isSome = true ↔ ReachesTcp answers := by
  induction answers generalizing t with
  | nil => simp [esdConnectTcpip, ReachesTcp]
  | cons answer answers ih =>
    simp only [esdConnectTcpip]
    split_ifs with hrefused
    · rw [ih]
      simp [ReachesTcp, hrefused]
    · rw [trySocket_isSome]
      simp [ReachesTcp, hrefused]

theorem orElse_isSome (r : Table Opened × Option ℕ) (answers : List SocketTry) :
    (if r.2 = none then esdConnectTcpip r.1 answers else r).2.isSome = true ↔
      r.2.isSome = true ∨ ReachesTcp answers := by
  split_ifs with hnone
  · simp [hnone, esdConnectTcpip_isSome]
  · simp [Option.isSome_iff_ne_none, hnone]

theorem connect_isSome (e : SoundEnv) (rhost : Option (List Octet)) (t : Table Opened) :
    (e.connect rhost t).2.isSome = true ↔ e.Finds rhost := by
  rw [SoundEnv.connect, orElse_isSome, SoundEnv.Finds]
  split_ifs with hunix
  · simp [esdConnectUnix, trySocket_isSome, hunix]
  · simp [hunix]

theorem connectAfter_isSome (e : SoundEnv) (t : Table Opened) :
    (e.connectAfter t).2.isSome = true ↔ e.FindsAfter := by
  by_cases htold : e.select = 1 ∧ e.readTimeout = 1
  · rw [SoundEnv.connectAfter, if_pos htold, orElse_isSome]
    simp [SoundEnv.FindsAfter, htold, esdConnectUnix, trySocket_isSome]
  · rw [SoundEnv.connectAfter, if_neg htold]
    simp only [SoundEnv.FindsAfter, Option.isSome_none, Bool.false_eq_true, false_iff]
    exact fun h => htold ⟨h.1, h.2.1⟩

theorem finishConnect_isSome (e : SoundEnv) (t : Table Opened) (socketOut : Option ℕ) :
    (e.finishConnect t socketOut).2.isSome = true ↔ socketOut.isSome = true ∧ e.auth ≠ 0 := by
  cases socketOut with
  | none => simp [SoundEnv.finishConnect]
  | some fd =>
    simp only [SoundEnv.finishConnect]
    split_ifs with hauth <;> simp [hauth]

theorem spawned_iff (e : SoundEnv) (rhost : Option (List Octet)) (t : Table Opened) :
    (e.esdOpenSound rhost t).spawned = true ↔
      isHostLocal e.hostname (e.host rhost) = true ∧ e.maySpawn = true ∧ ¬ e.Finds rhost := by
  rw [← connect_isSome e rhost t]
  simp only [SoundEnv.esdOpenSound, Bool.and_eq_true, decide_eq_true_eq, Option.not_isSome_iff_eq_none]
  tauto

/-- Whatever a call meets, it leaves nothing open but the socket that it returns, and that is a new
one. It tries to start a daemon exactly for the local host, where it may and none is found. The
socket is returned exactly when a daemon is found, at first or behind that, and `esd_send_auth` does
not return 0, so that a connection is kept where it returns -1, having sent nothing. -/
theorem open_sound_leaves (e : SoundEnv) (rhost : Option (List Octet)) (t : Table Opened) :
    LeavesOpen t ((e.esdOpenSound rhost t).table, (e.esdOpenSound rhost t).socketOut) ∧
      ((e.esdOpenSound rhost t).spawned = true ↔
        isHostLocal e.hostname (e.host rhost) = true ∧ e.maySpawn = true ∧ ¬ e.Finds rhost) ∧
      ((e.esdOpenSound rhost t).socketOut.isSome = true ↔
        (e.Finds rhost ∨ (e.esdOpenSound rhost t).spawned = true ∧ e.FindsAfter) ∧ e.auth ≠ 0) := by
  have hspawned := spawned_iff e rhost t
  have hfirst := connect_leaves e rhost t
  have hfound := connect_isSome e rhost t
  obtain ⟨r, hr⟩ : ∃ r, e.connect rhost t = r := ⟨_, rfl⟩
  rw [hr] at hfirst hfound
  obtain ⟨r', hr'⟩ : ∃ r', (if (e.esdOpenSound rhost t).spawned then e.spawn r.1 else r) = r' :=
    ⟨_, rfl⟩
  have hend : ((e.esdOpenSound rhost t).table, (e.esdOpenSound rhost t).socketOut) =
      e.finishConnect r'.1 r'.2 := by
    rw [← hr', ← hr]
    rfl
  have hleaves : LeavesOpen t r' := by
    rw [← hr']
    split_ifs with hs
    · have hnone : r.2 = none := by
        rw [← Option.not_isSome_iff_eq_none, hfound]
        exact (hspawned.mp hs).2.2
      have hbefore : LeavesOpen t (r.1, none) := by
        rw [← hnone]
        exact hfirst
      exact hbefore.trans (spawn_leaves e r.1)
    · exact hfirst
  have hlast : r'.2.isSome = true ↔
      e.Finds rhost ∨ (e.esdOpenSound rhost t).spawned = true ∧ e.FindsAfter := by
    rw [← hr']
    split_ifs with hs
    · have hafter : (e.spawn r.1).2.isSome = true ↔ e.FindsAfter := connectAfter_isSome e _
      simp [hafter, hs, (hspawned.mp hs).2.2]
    · simp [hfound, hs]
  refine ⟨?_, hspawned, ?_⟩
  · rw [hend]
    exact hleaves.finishConnect e
  · have hsocket : (e.esdOpenSound rhost t).socketOut = (e.finishConnect r'.1 r'.2).2 :=
      congrArg Prod.snd hend
    rw [hsocket, finishConnect_isSome, hlast]

end Found

end Esound
