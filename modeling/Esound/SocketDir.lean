import Esound.ByteOrder
import Esound.Library.CString
import Esound.Library.Strtol
import Esound.Library.Transition
import Mathlib.Logic.Function.Basic

/-!
# The directory of the socket

`safe_mksocketdir` makes the directory in one where anybody may make files and the sticky bit keeps
them, while other users do there what they may.
-/

open Library.CString Library.Strtol Library.Transition

namespace Esound

/-! ## Its name -/

def slash : Octet := 47#8
def dash : Octet := 45#8

/-- `%i` -/
def printInt (n : ℤ) : List Octet := if n < 0 then dash :: decimal n.natAbs else decimal n.natAbs

/-- What the name has of `$AUDIODEV`: that from the last slash on, the slash with it. -/
def audioPart : Option (List Octet) → List Octet
  | none => []
  | some audiodev => (strrchr slash audiodev).getD audiodev

def esdGetSocketDirname (audiodev : Option (List Octet)) (uid : ℕ) : List Octet :=
  ascii "/tmp/.esd" ++ audioPart audiodev ++ dash :: printInt (int32 uid)

def esdGetSocketName (audiodev : Option (List Octet)) (uid : ℕ) : List Octet :=
  esdGetSocketDirname audiodev uid ++ ascii "/socket"

section Name

variable {audiodev audiodev' : Option (List Octet)} {uid uid' : ℕ}

end Name

/-! ## Files -/

/-- `st_mode` without its type. -/
abbrev Mode := BitVec 12

def sIwoth : Mode := 0o0002#12
def sIsvtx : Mode := 0o1000#12
def esdUnixSocketDirMode : Mode := 0o1777#12

/-- A link leads to a file, or nowhere. -/
inductive FileType
  | directory
  | link (target : Option ℕ)
  | regular
  deriving DecidableEq

structure Inode where
  owner : ℕ
  type : FileType
  mode : Mode
  deriving DecidableEq

/-- What the name of the directory stands for, and all files by their numbers. -/
structure Tmp where
  entry : Option ℕ
  inode : ℕ → Inode

/-- What `lstat` finds. -/
structure Stat where
  ino : ℕ
  inode : Inode
  deriving DecidableEq

namespace Tmp

/-- What the name leads to. -/
def target (tmp : Tmp) : Option ℕ :=
  tmp.entry.bind fun ino =>
    match (tmp.inode ino).type with
    | .link target => target
    | _ => some ino

def modify (tmp : Tmp) (ino : ℕ) (f : Inode → Inode) : Tmp :=
  { tmp with inode := Function.update tmp.inode ino (f (tmp.inode ino)) }

end Tmp

/-! ## The daemon -/

namespace Inode

def UpdateOwner (us : ℕ) (st : Inode) : Prop := st.owner ≠ 0 ∧ st.owner ≠ us

def UpdateMode (st : Inode) : Prop :=
  ~~~esdUnixSocketDirMode &&& st.mode ≠ 0 ∨ st.mode &&& sIwoth ≠ 0 ∧ st.mode &&& sIsvtx = 0

instance (us : ℕ) (st : Inode) : Decidable (UpdateOwner us st) := inferInstanceAs (Decidable (_ ∧ _))

instance (st : Inode) : Decidable (UpdateMode st) := inferInstanceAs (Decidable (_ ∨ _))

/-- The user may change the mode. -/
def May (us : ℕ) (st : Inode) : Prop := us = 0 ∨ us = st.owner

instance (us : ℕ) (st : Inode) : Decidable (May us st) := inferInstanceAs (Decidable (_ ∨ _))

end Inode

/-- Where `safe_mksocketdir` stands. -/
inductive DirPlace
  | making
  | changing
  | stating
  | opening (st : Stat)
  | checking (st : Stat) (fd : ℕ)
  | owning (st : Stat) (fd : ℕ)
  | moding (st : Stat) (fd : ℕ) (updatedOwner : Bool)
  | returned (result : ℤ) (found : Option Stat)
  deriving DecidableEq

inductive DirInput
  /-- the number of the new directory, and its mode after the umask -/
  | mkdir (ino : ℕ) (mode : Mode)
  | eexist
  | enoent
  | chmod (ok : Bool)
  | lstat (ok : Bool)
  | open (ok : Bool)
  | fstat (ok : Bool)
  | fchown (ok : Bool)
  | fchmod (ok : Bool)

/-- The result after the attempts to correct owner and mode. -/
def judge (us : ℕ) (trustval : ℤ) (st : Inode) (updatedOwner updatedMode : Bool) : ℤ :=
  if st.UpdateOwner us ∧ updatedOwner = false then trustval
  else if st.UpdateMode ∧ updatedMode = false then trustval
  else 0

/-- A step of `safe_mksocketdir`; `none` for what cannot come at that place. -/
def DirPlace.advance (us : ℕ) (trustval : ℤ) (tmp : Tmp) : DirPlace → DirInput → Option (Tmp × DirPlace)
  | .making, .mkdir ino mode =>
    if tmp.entry = none ∧ ~~~esdUnixSocketDirMode &&& mode = 0 then
      some (⟨some ino, Function.update tmp.inode ino ⟨us, .directory, mode⟩⟩, .changing)
    else none
  | .making, .eexist => if tmp.entry = none then none else some (tmp, .stating)
  | .making, .enoent => some (tmp, .returned (-1) none)
  | .changing, .chmod false => some (tmp, .returned (-1) none)
  | .changing, .chmod true =>
    tmp.target.bind fun ino =>
      if (tmp.inode ino).May us then
        some (tmp.modify ino fun st => { st with mode := esdUnixSocketDirMode }, .returned 0 none)
      else none
  | .stating, .lstat false => some (tmp, .returned (-1) none)
  | .stating, .lstat true =>
    tmp.entry.map fun ino =>
      let st := tmp.inode ino
      (tmp,
        if st.type ≠ .directory then .returned (-1) (some ⟨ino, st⟩)
        else if st.UpdateMode ∨ st.UpdateOwner us then .opening ⟨ino, st⟩
        else .returned 0 (some ⟨ino, st⟩))
  | .opening st, .open false => some (tmp, .returned (judge us trustval st.inode false false) (some st))
  | .opening st, .open true => tmp.target.map fun fd => (tmp, .checking st fd)
  | .checking st _, .fstat false => some (tmp, .returned trustval (some st))
  | .checking st fd, .fstat true =>
    some (tmp,
      if (tmp.inode fd).type ≠ .directory ∨ st.ino ≠ fd then .returned trustval (some st)
      else if st.inode.UpdateOwner us then .owning st fd
      else .moding st fd false)
  | .owning st fd, .fchown ok =>
    if ok = true ∧ us ≠ 0 then none
    else
      some (if ok then tmp.modify fd fun st => { st with owner := us } else tmp,
        if st.inode.UpdateMode then .moding st fd ok
        else .returned (judge us trustval st.inode ok false) (some st))
  | .moding st fd updatedOwner, .fchmod ok =>
    if ok = true ∧ ¬ (tmp.inode fd).May us then none
    else
      some (if ok then tmp.modify fd fun st => { st with mode := esdUnixSocketDirMode } else tmp,
        .returned (judge us trustval st.inode updatedOwner ok) (some st))
  | _, _ => none

/-! ## The others -/

/-- What another user does: makes a file of his own somewhere, gives a file the name where nothing has
it, takes the name from a file of his own, or changes the mode of one. Numbers come back. -/
inductive OtherAct
  | make (ino : ℕ) (type : FileType) (mode : Mode)
  | put (ino : ℕ)
  | remove
  | chmod (ino : ℕ) (mode : Mode)

def Tmp.act (tmp : Tmp) (user : ℕ) : OtherAct → Option Tmp
  | .make ino type mode =>
    if tmp.entry = some ino then none
    else some { tmp with inode := Function.update tmp.inode ino ⟨user, type, mode⟩ }
  | .put ino => if tmp.entry = none then some { tmp with entry := some ino } else none
  | .remove =>
    tmp.entry.bind fun ino =>
      if (tmp.inode ino).owner = user then some { tmp with entry := none } else none
  | .chmod ino mode =>
    if (tmp.inode ino).owner = user then some (tmp.modify ino fun st => { st with mode := mode })
    else none

structure DirWorld where
  tmp : Tmp
  place : DirPlace

inductive DirMove
  | esd (i : DirInput)
  | other (user : ℕ) (act : OtherAct)

namespace DirWorld

def start (tmp : Tmp) : DirWorld := ⟨tmp, .making⟩

def step (us : ℕ) (trustval : ℤ) (w : DirWorld) : DirMove → Option DirWorld
  | .esd i => (w.place.advance us trustval w.tmp i).map fun r => ⟨r.1, r.2⟩
  | .other user act => (w.tmp.act user act).map fun tmp => { w with tmp := tmp }

/-- The others are neither the daemon's user nor the superuser. -/
def Others (us : ℕ) (_ : DirWorld) : DirMove → Prop
  | .esd _ => True
  | .other user _ => user ≠ 0 ∧ user ≠ us

end DirWorld

/-! ## A directory nobody else can change -/

/-- The name stands for a directory of the daemon's user or of the superuser, and its mode lets
nobody do more than was asked for. -/
def Tmp.Safe (us : ℕ) (tmp : Tmp) : Prop :=
  ∃ ino, tmp.entry = some ino ∧ (tmp.inode ino).type = .directory ∧
    ¬ (tmp.inode ino).UpdateOwner us ∧ ¬ (tmp.inode ino).UpdateMode

section Safe

variable {us : ℕ} {trustval : ℤ} {tmp tmp' : Tmp} {ino : ℕ} {st : Stat} {place place' : DirPlace}

/-- The file of the daemon's user, or of the superuser, that has the name. -/
def Tmp.Keeps (us : ℕ) (tmp : Tmp) (ino : ℕ) : Prop :=
  tmp.entry = some ino ∧ ¬ (tmp.inode ino).UpdateOwner us

/-- The sticky bit: others neither take the name from such a file nor change it. -/
theorem Tmp.Keeps.act {user : ℕ} {act : OtherAct} (h : tmp.Keeps us ino) (hroot : user ≠ 0) (hus : user ≠ us)
    (hact : tmp.act user act = some tmp') : tmp'.Keeps us ino ∧ tmp'.inode ino = tmp.inode ino := by
  obtain ⟨hentry, howner⟩ := h
  have hnot : (tmp.inode ino).owner ≠ user := by
    rintro rfl
    exact howner ⟨hroot, hus⟩
  cases act with
  | make ino' type mode =>
    simp only [Tmp.act] at hact
    split_ifs at hact with hsame
    cases hact
    have hne : ino ≠ ino' := fun heq => hsame (heq ▸ hentry)
    have hsame : Function.update tmp.inode ino' ⟨user, type, mode⟩ ino = tmp.inode ino :=
      Function.update_of_ne hne _ _
    refine ⟨⟨hentry, ?_⟩, hsame⟩
    change ¬ (Function.update tmp.inode ino' ⟨user, type, mode⟩ ino).UpdateOwner us
    rwa [hsame]
  | put ino' =>
    simp only [Tmp.act, hentry] at hact
    cases hact
  | remove =>
    simp only [Tmp.act, hentry, Option.bind_some, if_neg hnot] at hact
    cases hact
  | chmod ino' mode =>
    simp only [Tmp.act] at hact
    split_ifs at hact with howns
    cases hact
    have hne : ino ≠ ino' := by
      rintro rfl
      exact hnot howns
    have hsame : (tmp.modify ino' fun st => { st with mode := mode }).inode ino = tmp.inode ino :=
      Function.update_of_ne hne _ _
    exact ⟨⟨hentry, by rwa [hsame]⟩, hsame⟩

theorem Tmp.Safe.act {user : ℕ} {act : OtherAct} (h : tmp.Safe us) (hroot : user ≠ 0) (hus : user ≠ us)
    (hact : tmp.act user act = some tmp') : tmp'.Safe us := by
  obtain ⟨ino, hentry, htype, howner, hmode⟩ := h
  obtain ⟨⟨hentry', howner'⟩, hsame⟩ := Tmp.Keeps.act ⟨hentry, howner⟩ hroot hus hact
  exact ⟨ino, hentry', by rwa [hsame], howner', by rwa [hsame]⟩

/-- The directory that `lstat` found, unless it is another user's, is still the one with the name. -/
def Stat.Current (us : ℕ) (tmp : Tmp) (st : Stat) : Prop :=
  st.inode.type = .directory ∧
    (¬ st.inode.UpdateOwner us → tmp.entry = some st.ino ∧ tmp.inode st.ino = st.inode)

/-- What the daemon relies on from one step to the next. -/
def DirPlace.Inv (us : ℕ) (tmp : Tmp) : DirPlace → Prop
  | making | stating => True
  | changing => ∃ ino, tmp.entry = some ino ∧ (tmp.inode ino).owner = us ∧ (tmp.inode ino).type = .directory
  | opening st => st.Current us tmp ∧ (st.inode.UpdateMode ∨ st.inode.UpdateOwner us)
  | checking st _ => st.Current us tmp ∧ (st.inode.UpdateMode ∨ st.inode.UpdateOwner us)
  | owning st fd => fd = st.ino ∧ st.inode.type = .directory ∧ st.inode.UpdateOwner us
  | moding st fd updatedOwner =>
    fd = st.ino ∧ st.Current us tmp ∧ st.inode.UpdateMode ∧ (updatedOwner = true → us = 0)
  | returned result found =>
    result = 0 → (us ≠ 0 ∨ ∀ st ∈ found, ¬ st.inode.UpdateOwner us) → tmp.Safe us

theorem Stat.Current.act {user : ℕ} {act : OtherAct} (h : st.Current us tmp) (hroot : user ≠ 0)
    (hus : user ≠ us) (hact : tmp.act user act = some tmp') : st.Current us tmp' := by
  refine ⟨h.1, fun howner => ?_⟩
  obtain ⟨hentry, hinode⟩ := h.2 howner
  have hkeeps : tmp.Keeps us st.ino := ⟨hentry, by rwa [hinode]⟩
  obtain ⟨⟨hentry', -⟩, hsame⟩ := hkeeps.act hroot hus hact
  exact ⟨hentry', hsame.trans hinode⟩

theorem DirPlace.Inv.act {user : ℕ} {act : OtherAct} (h : place.Inv us tmp) (hroot : user ≠ 0)
    (hus : user ≠ us) (hact : tmp.act user act = some tmp') : place.Inv us tmp' := by
  cases place with
  | making => trivial
  | stating => trivial
  | changing =>
    obtain ⟨ino, hentry, howner, htype⟩ := h
    have hkeeps : tmp.Keeps us ino := ⟨hentry, fun hupdate => hupdate.2 howner⟩
    obtain ⟨⟨hentry', -⟩, hsame⟩ := hkeeps.act hroot hus hact
    exact ⟨ino, hentry', by rwa [hsame], by rwa [hsame]⟩
  | opening st => exact ⟨h.1.act hroot hus hact, h.2⟩
  | checking st fd => exact ⟨h.1.act hroot hus hact, h.2⟩
  | owning st fd => exact h
  | moding st fd updatedOwner => exact ⟨h.1, h.2.1.act hroot hus hact, h.2.2⟩
  | returned result found => exact fun hzero hfound => (h hzero hfound).act hroot hus hact

theorem judge_eq_zero {st : Inode} {updatedOwner updatedMode : Bool} (htrust : trustval ≠ 0) :
    judge us trustval st updatedOwner updatedMode = 0 ↔
      (st.UpdateOwner us → updatedOwner = true) ∧ (st.UpdateMode → updatedMode = true) := by
  unfold judge
  split_ifs with howner hmode
  · refine ⟨fun h => absurd h htrust, fun h => ?_⟩
    exact absurd (h.1 howner.1) (by simp [howner.2])
  · refine ⟨fun h => absurd h htrust, fun h => ?_⟩
    exact absurd (h.2 hmode.1) (by simp [hmode.2])
  · refine ⟨fun _ => ⟨fun hupdate => ?_, fun hupdate => ?_⟩, fun _ => rfl⟩
    · exact Bool.of_not_eq_false fun hfalse => howner ⟨hupdate, hfalse⟩
    · exact Bool.of_not_eq_false fun hfalse => hmode ⟨hupdate, hfalse⟩

theorem not_updateMode {owner : ℕ} {type : FileType} : ¬ (Inode.mk owner type esdUnixSocketDirMode).UpdateMode := by
  change ¬ (~~~esdUnixSocketDirMode &&& esdUnixSocketDirMode ≠ 0 ∨
    esdUnixSocketDirMode &&& sIwoth ≠ 0 ∧ esdUnixSocketDirMode &&& sIsvtx = 0)
  decide

/-- A mode that was corrected is that of a directory nobody else can change. -/
theorem Tmp.Keeps.safe (h : tmp.Keeps us ino) (htype : (tmp.inode ino).type = .directory) :
    (tmp.modify ino fun st => { st with mode := esdUnixSocketDirMode }).Safe us := by
  have hsame : (tmp.modify ino fun st => { st with mode := esdUnixSocketDirMode }).inode ino =
      { tmp.inode ino with mode := esdUnixSocketDirMode } := Function.update_self _ _ _
  exact ⟨ino, h.1, by rwa [hsame], by rw [hsame]; exact h.2, by rw [hsame]; exact not_updateMode⟩

theorem DirPlace.Inv.advance {i : DirInput} (htrust : trustval ≠ 0) (h : place.Inv us tmp)
    (hstep : place.advance us trustval tmp i = some (tmp', place')) : place'.Inv us tmp' := by
  cases place with
  | making =>
    cases i with
    | mkdir ino mode =>
      simp only [DirPlace.advance] at hstep
      split_ifs at hstep with hfree
      cases hstep
      have hnew : Function.update tmp.inode ino ⟨us, .directory, mode⟩ ino = ⟨us, .directory, mode⟩ :=
        Function.update_self _ _ _
      refine ⟨ino, rfl, ?_, ?_⟩
      · exact congrArg Inode.owner hnew
      · exact congrArg Inode.type hnew
    | eexist =>
      simp only [DirPlace.advance] at hstep
      split_ifs at hstep
      cases hstep
      trivial
    | enoent =>
      cases hstep
      exact fun hzero => absurd hzero (by decide)
    | _ => cases hstep
  | changing =>
    cases i with
    | chmod ok =>
      cases ok with
      | false =>
        cases hstep
        exact fun hzero => absurd hzero (by decide)
      | true =>
        obtain ⟨ino, hentry, howner, htype⟩ := h
        have htarget : tmp.target = some ino := by simp [Tmp.target, hentry, htype]
        simp only [DirPlace.advance, htarget, Option.bind_some] at hstep
        split_ifs at hstep
        cases hstep
        have hkeeps : tmp.Keeps us ino := ⟨hentry, fun hupdate => hupdate.2 howner⟩
        exact fun _ _ => hkeeps.safe htype
    | _ => cases hstep
  | stating =>
    cases i with
    | lstat ok =>
      cases ok with
      | false =>
        cases hstep
        exact fun hzero => absurd hzero (by decide)
      | true =>
        obtain ⟨ino, hentry, heq⟩ := Option.map_eq_some_iff.mp hstep
        cases heq
        by_cases htype : (tmp.inode ino).type = .directory
        · by_cases hupdate : (tmp.inode ino).UpdateMode ∨ (tmp.inode ino).UpdateOwner us
          · simp only [htype, hupdate, ne_eq, not_true_eq_false, if_false, if_true]
            exact ⟨⟨htype, fun _ => ⟨hentry, rfl⟩⟩, hupdate⟩
          · simp only [htype, hupdate, ne_eq, not_true_eq_false, if_false]
            rw [not_or] at hupdate
            exact fun _ _ => ⟨ino, hentry, htype, hupdate.2, hupdate.1⟩
        · simp only [htype, ne_eq, not_false_eq_true, if_true]
          exact fun hzero => absurd hzero (by decide)
    | _ => cases hstep
  | opening st =>
    cases i with
    | «open» ok =>
      cases ok with
      | false =>
        cases hstep
        intro hzero
        obtain ⟨howner, hmode⟩ := (judge_eq_zero htrust).mp hzero
        rcases h.2 with hupdate | hupdate
        · exact absurd (hmode hupdate) Bool.false_ne_true
        · exact absurd (howner hupdate) Bool.false_ne_true
      | true =>
        obtain ⟨fd, -, heq⟩ := Option.map_eq_some_iff.mp hstep
        cases heq
        exact h
    | _ => cases hstep
  | checking st fd =>
    cases i with
    | fstat ok =>
      cases ok with
      | false =>
        cases hstep
        exact fun hzero => absurd hzero htrust
      | true =>
        simp only [DirPlace.advance, Option.some.injEq, Prod.mk.injEq] at hstep
        obtain ⟨rfl, rfl⟩ := hstep
        obtain ⟨hcurrent, hupdate⟩ := h
        split_ifs with hother howner
        · exact fun hzero => absurd hzero htrust
        · have hsame : fd = st.ino := by
            by_contra hne
            exact hother (.inr (Ne.symm hne))
          exact ⟨hsame, hcurrent.1, howner⟩
        · have hsame : fd = st.ino := by
            by_contra hne
            exact hother (.inr (Ne.symm hne))
          exact ⟨hsame, hcurrent, hupdate.resolve_right howner, fun hfalse => absurd hfalse Bool.false_ne_true⟩
    | _ => cases hstep
  | owning st fd =>
    cases i with
    | fchown ok =>
      obtain ⟨hsame, htype, howner⟩ := h
      simp only [DirPlace.advance] at hstep
      split_ifs at hstep with hdenied hok hmode hmode
      · cases hstep
        have hroot : us = 0 := by
          by_contra hne
          exact hdenied ⟨hok, hne⟩
        exact ⟨hsame, ⟨htype, fun hnot => absurd howner hnot⟩, hmode, fun _ => hroot⟩
      · cases hstep
        have hroot : us = 0 := by
          by_contra hne
          exact hdenied ⟨hok, hne⟩
        intro _ hfound
        rcases hfound with hne | hnot
        · exact absurd hroot hne
        · exact absurd howner (hnot st rfl)
      · cases hstep
        exact ⟨hsame, ⟨htype, fun hnot => absurd howner hnot⟩, hmode, fun htrue => absurd htrue hok⟩
      · cases hstep
        intro hzero
        exact absurd (((judge_eq_zero htrust).mp hzero).1 howner) hok
    | _ => cases hstep
  | moding st fd updatedOwner =>
    cases i with
    | fchmod ok =>
      obtain ⟨hsame, hcurrent, hmode, hroot⟩ := h
      simp only [DirPlace.advance] at hstep
      split_ifs at hstep with hdenied hok
      · cases hstep
        intro hzero hfound
        obtain ⟨howned, -⟩ := (judge_eq_zero htrust).mp hzero
        -- the owner was corrected by the superuser alone, and then the directory was another's
        have howner : ¬ st.inode.UpdateOwner us := by
          intro hupdate
          rcases hfound with hne | hnot
          · exact hne (hroot (howned hupdate))
          · exact hnot st rfl hupdate
        obtain ⟨hentry, hinode⟩ := hcurrent.2 howner
        have hkeeps : tmp.Keeps us fd := ⟨hsame ▸ hentry, by rwa [hsame, hinode]⟩
        exact hkeeps.safe (by rw [hsame, hinode]; exact hcurrent.1)
      · cases hstep
        intro hzero
        exact absurd (((judge_eq_zero htrust).mp hzero).2 hmode) hok
    | _ => cases hstep
  | returned result found => cases i <;> cases hstep

theorem DirWorld.inv_of_run {tmp : Tmp} {w : DirWorld} {as : List DirMove} (htrust : trustval ≠ 0)
    (h : Run (DirWorld.step us trustval) (DirWorld.Others us) (.start tmp) as w) : w.place.Inv us w.tmp := by
  refine h.invariant (fun w => w.place.Inv us w.tmp) (fun w a w' hw hothers hstep => ?_) trivial
  cases a with
  | esd i =>
    obtain ⟨⟨tmp', place'⟩, hadvance, rfl⟩ := Option.map_eq_some_iff.mp hstep
    exact hw.advance htrust hadvance
  | other user act =>
    obtain ⟨tmp', hact, rfl⟩ := Option.map_eq_some_iff.mp hstep
    exact hw.act hothers.1 hothers.2 hact

/-- A directory that `safe_mksocketdir` accepts, without `-trust`, is one that nobody else can take away
or change, now and later, whatever others have done in between; only where the superuser takes over
the directory of another user may that user have put another in its place. -/
theorem socketDir_safe {w : DirWorld} {as : List DirMove} {found : Option Stat} (htrust : trustval ≠ 0)
    (h : Run (DirWorld.step us trustval) (DirWorld.Others us) (.start tmp) as w)
    (hplace : w.place = .returned 0 found)
    (hfound : us ≠ 0 ∨ ∀ st ∈ found, ¬ st.inode.UpdateOwner us) : w.tmp.Safe us := by
  have hinv := DirWorld.inv_of_run htrust h
  rw [hplace] at hinv
  exact hinv rfl hfound

end Safe

/-- A directory of user 1000 that everybody may change; the others are busy. -/
def openTmp : Tmp := ⟨some 1, fun _ => ⟨1000, .directory, 0o777#12⟩⟩

def openMoves : List DirMove :=
  [.other 7 (.make 2 .regular 0), .esd .eexist, .esd (.lstat true), .esd (.open true),
    .other 7 (.chmod 2 0o666#12), .esd (.fstat true), .esd (.fchmod true)]

instance (us : ℕ) (w : DirWorld) (a : DirMove) : Decidable (DirWorld.Others us w a) := by
  cases a <;> unfold DirWorld.Others <;> infer_instance

theorem openMoves_end : (exec (DirWorld.step 1000 (-1)) (DirWorld.Others 1000) (.start openTmp) openMoves).map
    (·.place) = some (.returned 0 (some ⟨1, ⟨1000, .directory, 0o777#12⟩⟩)) := by
  decide +kernel

theorem socketDir_safe_open : ∃ w,
    Run (DirWorld.step 1000 (-1)) (DirWorld.Others 1000) (.start openTmp) openMoves w ∧ w.tmp.Safe 1000 := by
  obtain ⟨w, hexec, hplace⟩ := Option.map_eq_some_iff.mp openMoves_end
  have hrun := Run.of_exec hexec
  exact ⟨w, hrun, socketDir_safe (by decide) hrun hplace (.inl (by decide))⟩

/-- The superuser takes over the directory of another, who has it renamed before that. -/
example : (exec (DirWorld.step 0 (-1)) (DirWorld.Others 0) (.start ⟨some 1, fun _ => ⟨7, .directory, 0o755#12⟩⟩)
    [.esd .eexist, .esd (.lstat true), .esd (.open true), .esd (.fstat true), .other 7 .remove,
      .other 7 (.put 2), .esd (.fchown true)]).map (fun w => (w.place, w.tmp.entry, (w.tmp.inode 2).owner)) =
    some (.returned 0 (some ⟨1, ⟨7, .directory, 0o755#12⟩⟩), some 2, 7) := by
  decide +kernel

end Esound
