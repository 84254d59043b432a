import Esound.Library.CString
import Esound.Calls
import Esound.Lookup

/-!
# Files that are cached under a name

`esd_file_cache` makes the name of the sample in an array of its own, from a prefix and the name of
the file, and nothing has put a 0 into that array before. The name goes through the arrays of the
client and of the daemon, and is looked up there by what a later request has for it.
-/

open Library.Buffer Library.CString Library.History Library.Transition

namespace Esound

/-- What `esd_file_cache` makes of the array `name`, or `none` when it goes beyond it. -/
def fileName (name : List Octet) (namePrefix : Option (List Octet)) (filename : List Octet) :
    Option (List Octet) := do
  let name ←
    match namePrefix with
    | none => some name
    | some namePrefix => (strncpy name 0 namePrefix (esdNameMax - 2)).bind fun name => strcat name (ascii ":")
  let n ← strlen name
  strncpy name n filename (esdNameMax - n)

/-- The name that the file should have. -/
def fullName (namePrefix : Option (List Octet)) (filename : List Octet) : List Octet :=
  match namePrefix with
  | none => filename
  | some namePrefix => namePrefix ++ ascii ":" ++ filename

/-- The array is such that the name comes out right: without a prefix it begins with nothing that
shows in the name, and with a long one its last octet but one is 0. -/
def NameRight (name : List Octet) (namePrefix : Option (List Octet)) (filename : List Octet) : Prop :=
  match namePrefix with
  | none => 0 ∈ name ∧ (name.takeWhile (· ≠ 0) ++ filename).take (esdNameMax - 1) =
      filename.take (esdNameMax - 1)
  | some namePrefix => namePrefix.length < esdNameMax - 2 ∨
      name[esdNameMax - 2]? = some 0 ∧
        (namePrefix.length = esdNameMax - 2 ∨ namePrefix[esdNameMax - 2]? = some 58#8)

section Names

variable {name s after filename namePrefix : List Octet}

theorem cutName_nameBuf (held : Mem) (name : List Octet) :
    cutName (nameBuf held (some name)) = (name.takeWhile (· ≠ 0)).take (esdNameMax - 1) := by
  have hnone : 0 ∉ (name.takeWhile (· ≠ 0)).take esdNameMax := fun h =>
    not_mem_takeWhile name (List.mem_of_mem_take h)
  rw [cutName, nameBuf, nameArray, takeWhile_padded hnone, List.take_take]
  rfl

theorem strncpy_behind (hs : 0 ∉ s) (hfilename : 0 ∉ filename)
    (hlength : (s ++ 0 :: after).length = esdNameMax) :
    ∃ name, strncpy (s ++ 0 :: after) s.length filename (esdNameMax - s.length) = some name ∧
      (name.takeWhile (· ≠ 0)).take (esdNameMax - 1) = (s ++ filename).take (esdNameMax - 1) := by
  obtain ⟨room, hroom⟩ : ∃ room, esdNameMax - s.length = room := ⟨_, rfl⟩
  have hmid : (0 :: after).length =
      (filename.take room ++ List.replicate (room - filename.length) 0).length := by
    simp only [List.length_append, List.length_cons, List.length_take, List.length_replicate] at hlength ⊢
    omega
  have hput : put (s ++ 0 :: after ++ []) s.length
      (filename.take room ++ List.replicate (room - filename.length) 0) = some _ :=
    put_append rfl hmid
  rw [List.append_nil, List.append_nil] at hput
  rw [hroom]
  refine ⟨_, hput, ?_⟩
  have hstring : 0 ∉ s ++ filename.take room := by
    rw [List.mem_append, not_or]
    exact ⟨hs, fun h => hfilename (List.mem_of_mem_take h)⟩
  rw [← List.append_assoc, takeWhile_padded hstring, List.take_append, List.take_append, List.take_take]
  have hmin : min (esdNameMax - 1 - s.length) room = esdNameMax - 1 - s.length := by omega
  rw [hmin]

/-- A prefix that was copied with its end, and an octet for the colon. -/
theorem fileName_prefixed {y : Octet}
    (hcopied : strncpy name 0 namePrefix (esdNameMax - 2) = some (s ++ 0 :: y :: after))
    (hlength : (s ++ 0 :: y :: after).length = esdNameMax) (hs : 0 ∉ s) (hfilename : 0 ∉ filename) :
    ∃ name', fileName name (some namePrefix) filename = some name' ∧
      (name'.takeWhile (· ≠ 0)).take (esdNameMax - 1) =
        (s ++ ascii ":" ++ filename).take (esdNameMax - 1) := by
  have hcolon : 0 ∉ s ++ ascii ":" := by
    rw [List.mem_append, not_or]
    exact ⟨hs, by decide⟩
  have hcat : strcat (s ++ 0 :: y :: after) (ascii ":") = some (s ++ ascii ":" ++ 0 :: after) := by
    have hput : put (s ++ [0, y] ++ after) s.length (ascii ":" ++ [0]) =
        some (s ++ (ascii ":" ++ [0]) ++ after) := put_append rfl rfl
    rw [strcat, strlen_string hs, Option.bind_some, strcpy]
    simpa using hput
  have hlength' : (s ++ ascii ":" ++ 0 :: after).length = esdNameMax := by
    rw [← hlength]
    simp [ascii]
  obtain ⟨name', hname, hstring⟩ := strncpy_behind hcolon hfilename hlength'
  refine ⟨name', ?_, hstring⟩
  simp only [fileName, hcopied, hcat, strlen_string hcolon, hname, Option.bind_eq_bind, Option.bind_some]

/-- A long prefix is copied without its end, and there is none behind it. -/
theorem fileName_overrun {x y : Octet}
    (hcopied : strncpy name 0 namePrefix (esdNameMax - 2) = some (s ++ [x, y])) (hs : 0 ∉ s) (hx : x ≠ 0) :
    fileName name (some namePrefix) filename = none := by
  have hcat : strcat (s ++ [x, y]) (ascii ":") = none := by
    by_cases hy : y = 0
    · have hsx : 0 ∉ s ++ [x] := by
        rw [List.mem_append, List.mem_singleton, not_or]
        exact ⟨hs, hx.symm⟩
      have hsplit : s ++ [x, y] = s ++ [x] ++ 0 :: [] := by simp [hy]
      have hlong : (s ++ [x] ++ 0 :: []).length < (s ++ [x]).length + (ascii ":" ++ [0]).length := by
        simp [ascii]
      rw [hsplit, strcat, strlen_string hsx, Option.bind_some, strcpy, put_beyond hlong]
    · have hnone : 0 ∉ s ++ [x, y] := by
        rw [List.mem_append, List.mem_cons, List.mem_singleton, not_or, not_or]
        exact ⟨hs, hx.symm, Ne.symm hy⟩
      rw [strcat, strlen_unterminated hnone, Option.bind_none]
  simp only [fileName, hcopied, hcat, Option.bind_eq_bind, Option.bind_some, Option.bind_none]

/-- A prefix that is cut for the colon, and one that leaves no room for it. -/
theorem prefix_cut_iff (hlong : esdNameMax - 2 ≤ namePrefix.length) (filename : List Octet) :
    namePrefix.take (esdNameMax - 2) ++ ascii ":" =
        (fullName (some namePrefix) filename).take (esdNameMax - 1) ↔
      namePrefix.length = esdNameMax - 2 ∨ namePrefix[esdNameMax - 2]? = some 58#8 := by
  have hmax : esdNameMax - 1 = esdNameMax - 2 + 1 := rfl
  rcases hlong.eq_or_lt with heq | hlt
  · have hcut : (fullName (some namePrefix) filename).take (esdNameMax - 1) =
        namePrefix ++ ascii ":" :=
      List.take_left' (by rw [List.length_append, ← heq]; rfl)
    rw [hcut, List.take_of_length_le heq.ge]
    exact iff_of_true rfl (.inl heq.symm)
  · have hnext : namePrefix[esdNameMax - 2]? = some namePrefix[esdNameMax - 2] :=
      List.getElem?_eq_getElem hlt
    have hcut : (fullName (some namePrefix) filename).take (esdNameMax - 1) =
        namePrefix.take (esdNameMax - 2) ++ [namePrefix[esdNameMax - 2]] := by
      rw [fullName, List.append_assoc, List.take_append_of_le_length (hmax ▸ hlt), hmax, List.take_add_one,
        hnext]
      rfl
    rw [hcut, hnext, List.append_cancel_left_eq, Option.some.injEq]
    have hne : namePrefix.length ≠ esdNameMax - 2 := hlt.ne'
    simp only [hne, false_or]
    exact List.singleton_inj.trans eq_comm

theorem not_named_of_none {namePrefix : Option (List Octet)} {full : List Octet}
    (hbuilt : fileName name namePrefix filename = none) :
    ¬ ∃ name', fileName name namePrefix filename = some name' ∧
      (name'.takeWhile (· ≠ 0)).take (esdNameMax - 1) = full := by
  rintro ⟨_, hname', -⟩
  simp [hbuilt] at hname'

theorem fileName_plain_iff (hlength : name.length = esdNameMax) (hfilename : 0 ∉ filename) :
    (∃ name', fileName name none filename = some name' ∧
      (name'.takeWhile (· ≠ 0)).take (esdNameMax - 1) =
        (fullName none filename).take (esdNameMax - 1)) ↔ NameRight name none filename := by
  by_cases hzero : 0 ∈ name
  · obtain ⟨after, hafter⟩ := exists_string hzero
    obtain ⟨name', hname', hstring⟩ := strncpy_behind (not_mem_takeWhile name) hfilename
      (hafter ▸ hlength)
    have hbuilt : fileName name none filename = some name' := by
      rw [← hafter] at hname'
      have hlen : strlen name = some (name.takeWhile (· ≠ 0)).length := by
        rw [hafter, strlen_string (not_mem_takeWhile name), takeWhile_string (not_mem_takeWhile name)]
      simp only [fileName, hlen, hname', Option.bind_eq_bind, Option.bind_some]
    simp only [hbuilt, Option.some.injEq, exists_eq_left', hstring, NameRight, fullName, hzero,
      true_and]
  · have hbuilt : fileName name none filename = none := by
      simp only [fileName, strlen_unterminated hzero, Option.bind_eq_bind, Option.bind_some,
        Option.bind_none]
    exact iff_of_false (not_named_of_none hbuilt) fun hright => hzero hright.1

/-- The prefix is copied, with zeros behind it up to the last two octets of the array. -/
theorem strncpy_prefix (hlength : name.length = esdNameMax) (namePrefix : List Octet) :
    ∃ x y, name[esdNameMax - 2]? = some x ∧
      strncpy name 0 namePrefix (esdNameMax - 2) = some (namePrefix.take (esdNameMax - 2) ++
        List.replicate (esdNameMax - 2 - namePrefix.length) 0 ++ [x, y]) := by
  obtain ⟨x, y, hxy⟩ : ∃ x y, name.drop (esdNameMax - 2) = [x, y] :=
    List.length_eq_two.mp (by rw [List.length_drop, hlength]; rfl)
  have hcells : (namePrefix.take (esdNameMax - 2) ++
      List.replicate (esdNameMax - 2 - namePrefix.length) 0).length = esdNameMax - 2 := by
    simp only [List.length_append, List.length_take, List.length_replicate]
    omega
  refine ⟨x, y, ?_, ?_⟩
  · rw [← List.head?_drop, hxy, List.head?_cons]
  · rw [strncpy, put, hcells, if_pos (by rw [hlength]; decide), Nat.zero_add, hxy]
    rfl

theorem fileName_short (hlength : name.length = esdNameMax) (hp : 0 ∉ namePrefix)
    (hfilename : 0 ∉ filename) (hshort : namePrefix.length < esdNameMax - 2) :
    ∃ name', fileName name (some namePrefix) filename = some name' ∧
      (name'.takeWhile (· ≠ 0)).take (esdNameMax - 1) =
        (fullName (some namePrefix) filename).take (esdNameMax - 1) := by
  obtain ⟨x, y, -, hcopied⟩ := strncpy_prefix hlength namePrefix
  obtain ⟨z, after, hafter⟩ : ∃ z after,
      List.replicate (esdNameMax - 3 - namePrefix.length) 0 ++ [x, y] = z :: after :=
    List.exists_cons_of_ne_nil (by simp)
  have htail : List.replicate (esdNameMax - 2 - namePrefix.length) 0 ++ [x, y] = 0 :: z :: after := by
    have hcount : esdNameMax - 2 - namePrefix.length = (esdNameMax - 3 - namePrefix.length) + 1 := by
      omega
    rw [hcount, List.replicate_succ, List.cons_append, hafter]
  rw [List.take_of_length_le hshort.le, List.append_assoc, htail] at hcopied
  have hwhole : (namePrefix ++ 0 :: z :: after).length = esdNameMax :=
    (put_length hcopied).trans hlength
  exact fileName_prefixed hcopied hwhole hp hfilename

theorem fileName_long_iff (hlength : name.length = esdNameMax) (hp : 0 ∉ namePrefix)
    (hfilename : 0 ∉ filename) (hlong : esdNameMax - 2 ≤ namePrefix.length) :
    (∃ name', fileName name (some namePrefix) filename = some name' ∧
      (name'.takeWhile (· ≠ 0)).take (esdNameMax - 1) =
        (fullName (some namePrefix) filename).take (esdNameMax - 1)) ↔
      name[esdNameMax - 2]? = some 0 ∧
        (namePrefix.length = esdNameMax - 2 ∨ namePrefix[esdNameMax - 2]? = some 58#8) := by
  obtain ⟨x, y, hx, hcopied⟩ := strncpy_prefix hlength namePrefix
  have htake : (namePrefix.take (esdNameMax - 2)).length = esdNameMax - 2 := by
    rw [List.length_take, min_eq_left hlong]
  have hnonzero : 0 ∉ namePrefix.take (esdNameMax - 2) := fun h => hp (List.mem_of_mem_take h)
  rw [Nat.sub_eq_zero_of_le hlong, List.replicate_zero, List.append_nil] at hcopied
  by_cases hend : x = 0
  · subst hend
    have hwhole : (namePrefix.take (esdNameMax - 2) ++ [0, y]).length = esdNameMax :=
      (put_length hcopied).trans hlength
    obtain ⟨name', hname', hstring⟩ := fileName_prefixed hcopied hwhole hnonzero hfilename
    have hcut : (namePrefix.take (esdNameMax - 2) ++ ascii ":" ++ filename).take (esdNameMax - 1) =
        namePrefix.take (esdNameMax - 2) ++ ascii ":" :=
      List.take_left' (by rw [List.length_append, htake]; rfl)
    simp only [hname', Option.some.injEq, exists_eq_left', hstring, hcut, hx, true_and]
    exact prefix_cut_iff hlong filename
  · have hbuilt : fileName name (some namePrefix) filename = none :=
      fileName_overrun hcopied hnonzero hend
    exact iff_of_false (not_named_of_none hbuilt) fun hright =>
      hend (Option.some.inj (hx.symm.trans hright.1))

/-- What the array must be for the name to come out right. -/
theorem fileName_right_iff (hlength : name.length = esdNameMax) {namePrefix : Option (List Octet)}
    (hgiven : ∀ p ∈ namePrefix, 0 ∉ p) (hfilename : 0 ∉ filename) :
    (∃ name', fileName name namePrefix filename = some name' ∧
      (name'.takeWhile (· ≠ 0)).take (esdNameMax - 1) =
        (fullName namePrefix filename).take (esdNameMax - 1)) ↔ NameRight name namePrefix filename := by
  cases namePrefix with
  | none => exact fileName_plain_iff hlength hfilename
  | some p =>
    rcases lt_or_ge p.length (esdNameMax - 2) with hshort | hlong
    · exact iff_of_true (fileName_short hlength (hgiven p rfl) hfilename hshort) (.inl hshort)
    · rw [fileName_long_iff hlength (hgiven p rfl) hfilename hlong]
      exact (or_iff_right (not_lt.mpr hlong)).symm

end Names

/-! ## The name on the daemon -/

/-- A turn that takes a request to cache a sample, with these octets for the name, and lists it. -/
structure TakesFile (cfg : Config) (s t : Server) (field : List Octet) (id : ℤ) : Prop where
  taken : ∃ c env, step cfg s (.poll c env) = some t
  request : ∃ c protoData ok,
    t.calls.getLast? = some (.handled c .sampleCache protoData ok) ∧ protoData.drop 12 = field
  listed : (newEntries s t).map Prod.fst = [id]

section Server

variable {cfg : Config} {s t t' u v : Server} {as bs : List Action} {id : ℤ}
  {field name filename : List Octet} {namePrefix : Option (List Octet)} {history : List (ℤ × List Octet)}

theorem TakesFile.entries (h : TakesFile cfg s t field id) : newEntries s t = [(id, cutName field)] := by
  obtain ⟨c, protoData, ok, hcall, hfield⟩ := h.request
  have hname : requestedName t.calls = cutName field := by rw [requestedName, hcall, ← hfield]
  have hlisted := h.listed
  rw [newEntries, hname, List.map_map] at hlisted
  rw [newEntries, hname]
  have hpairs := congrArg (List.map fun x => (x, cutName field)) hlisted
  rw [List.map_map] at hpairs
  exact hpairs

/-- What is looked up under a name is the sample of the id exactly if that was its name, as long as
it is there and none was added under the name after it. -/
theorem lookupName_iff {later : List (ℤ × List Octet)} {left : List ℤ} {entered wanted : List Octet}
    (hlogged : Logged v (later ++ ((id, entered) :: history))) (hleft : id ∈ left)
    (hlater : ∀ e ∈ later, e.2 ≠ wanted) :
    lookupName (later ++ ((id, entered) :: history)) left wanted = id ↔ entered = wanted := by
  have hmem : (id, entered) ∈ later ++ ((id, entered) :: history) := by simp
  constructor
  · intro hlookup
    simp only [lookupName] at hlookup
    split at hlookup
    · rename_i e hlatest
      have hfound := List.mem_of_find?_eq_some hlatest
      have hwanted := List.find?_some hlatest
      have hsame : e = (id, entered) :=
        List.inj_on_of_nodup_map hlogged.nodup hfound hmem hlookup
      simp only [hsame, decide_eq_true_eq] at hwanted
      exact hwanted.2
    · have hrange := hlogged.range id (List.mem_map_of_mem hmem)
      omega
  · rintro rfl
    have hskip : later.find? (fun e => decide (e.1 ∈ left ∧ e.2 = entered)) = none :=
      List.find?_eq_none.mpr fun e he => by simp [hlater e he]
    have hlatest : latest (· = entered) left (later ++ ((id, entered) :: history)) =
        some (id, entered) := by
      rw [latest, List.find?_append, hskip, Option.none_or, List.find?_cons_of_pos (by simp [hleft])]
    rw [lookupName, hlatest]

/-- The file is found under its name exactly if the array was right for the name: in every run of
the daemon in which it takes the upload, as long as the sample is there and none was added under the
name after it, and for any client that asks. -/
theorem cached_file_found_iff (hid : ∀ n, cfg.nextId n = n + 1) (hs : s.Initial)
    (h : Runs cfg NoReset s as t) (hlength : name.length = esdNameMax)
    (hgiven : ∀ p ∈ namePrefix, 0 ∉ p) (hfilename : 0 ∉ filename)
    (hsent : ∀ built, fileName name namePrefix filename = some built →
      ∃ held, field = nameBuf held (some built))
    (hupload : TakesFile cfg t t' field id) (hrun : Runs cfg NoReset t' bs v) (hleft : id ∈ v.sampleIds)
    (hlater : ∀ e ∈ added cfg t' bs, e.2 ≠ (fullName namePrefix filename).take (esdNameMax - 1))
    (hbound : v.esdNextSampleId ≤ 2 ^ 31) {c : Ptr} {held : Mem} (hheard : Heard c v u)
    (hasks : load (u.client c).protoData 0 esdNameMax =
      nameBuf held (some (fullName namePrefix filename))) :
    ∃ x, esdProtoSampleGetid u c = ((reply u c x).1, true) ∧
      (∀ opposite, readBack opposite (maybeSwap32 opposite (BitVec.ofInt 32 x)) = x) ∧
      ((∃ built, fileName name namePrefix filename = some built ∧ x = id) ↔
        NameRight name namePrefix filename) := by
  have hstarted : Logged t (added cfg s as) := by
    have hrun' := Run.logged hid hs.logged h
    rwa [List.append_nil] at hrun'
  have htaken : Logged t' ((id, cutName field) :: added cfg s as) := by
    obtain ⟨c', env, hstep⟩ := hupload.taken
    have hone := step_logged hid hstarted hstep fun hreset => hreset
    rwa [hupload.entries] at hone
  have hlogged := Run.logged hid htaken hrun
  obtain ⟨hu, hids⟩ := hheard.logged hlogged
  have hwanted : nameOf (u.client c).protoData 0 =
      (fullName namePrefix filename).take (esdNameMax - 1) := by
    have hfull : 0 ∉ fullName namePrefix filename := by
      cases namePrefix with
      | none => exact hfilename
      | some p =>
        have hcolon : 0 ∉ ascii ":" := by decide
        rw [fullName, List.mem_append, List.mem_append, not_or, not_or]
        exact ⟨⟨hgiven p rfl, hcolon⟩, hfilename⟩
    have hcut : nameOf (u.client c).protoData 0 = cutName (load (u.client c).protoData 0 esdNameMax) := rfl
    rw [hcut, hasks, cutName_nameBuf, takeWhile_self hfull]
  refine ⟨_, esdProtoSampleGetid_lookup hu c, fun opposite => readBack_maybeSwap32 ?_ opposite, ?_⟩
  · exact (lookupName_range hlogged _ _).imp_right fun hx => ⟨hx.1, hx.2.trans_le hbound⟩
  · rw [hids, hwanted, lookupName_iff hlogged hleft hlater, ← fileName_right_iff hlength hgiven hfilename]
    refine exists_congr fun built => and_congr_right fun hbuilt => ?_
    obtain ⟨held', hfield⟩ := hsent built hbuilt
    rw [hfield, cutName_nameBuf]

/-- A client that connects and caches a sample of four octets, with these octets for the name. -/
def fileRun (field : List Octet) : List Action :=
  [.accept 1 5 (.sending
      [handshake 7, Word.octets 6#32,
        Word.octets 0#32 ++ Word.octets 0#32 ++ Word.octets 4#32 ++ field, [1, 2, 3, 4]]),
    .poll 1 (.allocating 0), .poll 1 (.allocating 0)]

/-- What the client asks for afterwards. -/
def asking (v : Server) (name : List Octet) : Server :=
  v.heardData 1 (nameBuf (fun _ => 0) (some name)) (.sending [])

theorem asking_lookup (h : Logged v history) (name : List Octet) :
    esdProtoSampleGetid (asking v name) 1 = ((reply (asking v name) 1 (lookupName history v.sampleIds
      (cutName (nameBuf (fun _ => 0) (some name))))).1, true) := by
  have hheard : Heard 1 v (asking v name) := heardData_heard 1 _ _
  obtain ⟨hu, hids⟩ := hheard.logged h
  have hload := heardData_load v 1 (nameBuf (fun _ => 0) (some name)) (.sending [])
  rw [nameBuf_length] at hload
  have hname : nameOf ((asking v name).client 1).protoData 0 =
      cutName (nameBuf (fun _ => 0) (some name)) := congrArg cutName hload
  rw [esdProtoSampleGetid_lookup hu 1, hids, hname]

/-- The name with a prefix, in an array that was cleared. -/
def prefixedField : List Octet := nameBuf (fun _ => 0) (some (ascii "fx:a" ++ List.replicate 124 0))

theorem prefixedField_run : (exec (step .smallBlocks) NoReset .blank (fileRun prefixedField)).isSome := by
  decide +kernel

theorem prefixedField_taken :
    (step .smallBlocks ((exec (step .smallBlocks) NoReset .blank (fileRun prefixedField)).get
      prefixedField_run) (.poll 1 (.allocating 2))).isSome := by
  decide +kernel

theorem cached_file_found_iff_prefix :
    ∃ t v, Runs .smallBlocks NoReset .blank (fileRun prefixedField) t ∧
      step .smallBlocks t (.poll 1 (.allocating 2)) = some v ∧
      esdProtoSampleGetid (asking v (ascii "fx:a")) 1 = ((reply (asking v (ascii "fx:a")) 1 1).1, true) := by
  have hrun := Run.of_isSome prefixedField_run
  have hstep := (Option.some_get prefixedField_taken).symm
  have hupload : TakesFile .smallBlocks _ _ prefixedField 1 :=
    ⟨⟨1, .allocating 2, hstep⟩,
      ⟨1, Word.octets 0#32 ++ Word.octets 0#32 ++ Word.octets 4#32 ++ prefixedField, true,
        by decide +kernel, by decide +kernel⟩, by decide +kernel⟩
  have hbuilt : fileName (List.replicate 128 0) (some (ascii "fx")) (ascii "a") =
      some (ascii "fx:a" ++ List.replicate 124 0) := by decide +kernel
  have hsent : ∀ built, fileName (List.replicate 128 0) (some (ascii "fx")) (ascii "a") = some built →
      ∃ held, prefixedField = nameBuf held (some built) := by
    intro built h
    rw [hbuilt, Option.some.injEq] at h
    exact ⟨fun _ => 0, by rw [← h, prefixedField]⟩
  have hheard := heardData_heard (s := (step .smallBlocks ((exec (step .smallBlocks) NoReset .blank
    (fileRun prefixedField)).get prefixedField_run) (.poll 1 (.allocating 2))).get prefixedField_taken)
    1 (nameBuf (fun _ => 0) (some (ascii "fx:a"))) (.sending [])
  obtain ⟨x, hreply, -, hiff⟩ := @cached_file_found_iff .smallBlocks .blank _ _ _ _ _ [] 1 prefixedField
    (List.replicate 128 0) (ascii "a") (some (ascii "fx")) (fun _ => rfl) Server.blank_initial hrun
    (by decide +kernel) (by decide +kernel) (by decide +kernel) hsent hupload (.nil _) (by decide +kernel)
    (by decide) (by decide +kernel) 1 (fun _ => 0) hheard (heardData_load _ 1 _ _)
  obtain ⟨built, -, hx⟩ := hiff.mpr (.inl (by decide))
  exact ⟨_, _, hrun, hstep, hx ▸ hreply⟩

/-- An array that begins with an octet of before, and a file that is cached without a prefix. -/
def strayArray : List Octet := 120#8 :: List.replicate 127 0

def strayName : List Octet := ascii "xa" ++ List.replicate 126 0

def strayField : List Octet := nameBuf (fun _ => 0) (some strayName)

def strayRun : List Action := fileRun strayField ++ [.poll 1 (.allocating 2)]

theorem strayRun_ends : (exec (step .smallBlocks) NoReset .blank strayRun).isSome := by
  decide +kernel

/-- The sample is there, and is not found under the name of the file. -/
theorem stray_octet_named :
    ∃ built v, fileName strayArray none (ascii "a") = some built ∧
      strayField = nameBuf (fun _ => 0) (some built) ∧ Runs .smallBlocks NoReset .blank strayRun v ∧
      v.sampleIds = [1] ∧
      esdProtoSampleGetid (asking v (ascii "a")) 1 = ((reply (asking v (ascii "a")) 1 (-1)).1, true) := by
  refine ⟨strayName, _, by decide +kernel, rfl, Run.of_isSome strayRun_ends, by decide +kernel, ?_⟩
  have hnone : lookupName (added .smallBlocks .blank strayRun ++ []) ((exec (step .smallBlocks) NoReset
      .blank strayRun).get strayRun_ends).sampleIds (cutName (nameBuf (fun _ => 0) (some (ascii "a")))) =
        -1 := by
    decide +kernel
  have hlogged := Run.logged (fun _ => rfl) Server.blank_initial.logged (Run.of_isSome strayRun_ends)
  rw [asking_lookup hlogged, hnone]

end Server

end Esound
