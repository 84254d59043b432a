import Esound.Library.CString
import Esound.Library.Strtol
import Esound.ByteOrder

/-!
# Host strings

The client takes the host to connect to as a string `host:port`, of which both parts may be
missing; with IPv6 the host may be a literal with colons of its own, with or without brackets.
Two parsers, one for each family, put the host into an array of 64 octets. An access beyond that
array, or beyond the end of the string, is `none`.
-/

open Library.CString Library.Strtol

namespace Esound

def atoi (s : List Octet) : ℤ := int32 (strtol s 10).1

def esdDefaultPort : ℤ := 16001

def colon : Octet := 58#8
def openBracket : Octet := 91#8
def closeBracket : Octet := 93#8

/-- What is looked up and connected to. -/
structure Peer where
  host : List Octet
  port : ℤ
  deriving DecidableEq

/-- The array `connect_host`, with whatever it holds. -/
structure ConnectHost where
  octets : List Octet
  length_eq : octets.length = 64

/-! ## With IPv6 -/

/-- The host into the array, and the port. The string is a copy of its own. -/
def splitIpv6 (connectHost host : List Octet) : Option (List Octet × ℤ) :=
  let s := host ++ [0]
  if host.count colon = 1 then do
    let loc := s.idxOf colon
    let s := s.set loc 0
    let connectHost ← strcpy connectHost 0 (← strAt s 0)
    let port ← strAt s (loc + 1)
    return (connectHost, atoi port)
  else if host.count colon ≠ 0 ∧ closeBracket ∈ host then do
    let loc := s.idxOf closeBracket
    let s := s.set loc 0
    let connectHost ← strcpy connectHost 0 (← strAt s 1)
    let port ← strAt s (loc + 2)
    return (connectHost, atoi port)
  else do
    let connectHost ← strcpy connectHost 0 (← strAt s 0)
    return (connectHost, esdDefaultPort)

def orLocalhost (connectHost : List Octet) : Option (List Octet) := do
  if (← strlen connectHost) = 0 then strcpy connectHost 0 (ascii "localhost") else some connectHost

def settleIpv6 (connectHost : List Octet) (port : ℤ) : Option Peer :=
  let port := if port = 0 then esdDefaultPort else port
  (orLocalhost connectHost).bind fun connectHost => (strAt connectHost 0).map fun name => ⟨name, port⟩

def parseIpv6 (connectHost : List Octet) (host : Option (List Octet)) : Option Peer :=
  let connectHost := connectHost.set 0 0
  match host with
  | none => settleIpv6 connectHost esdDefaultPort
  | some host => (splitIpv6 connectHost host).bind fun r => settleIpv6 r.1 r.2

/-! ## Without IPv6 -/

def defaultHost : List Octet := ascii "127.0.0.1"

/-- The host in the array is ended where it was found to end. -/
def cutHost (connectHost espeaker : List Octet) (hostDiv : ℕ) : Option (List Octet) :=
  if 0 < hostDiv ∧ hostDiv < espeaker.length then some (connectHost.set hostDiv 0)
  else if hostDiv = 0 then strcpy connectHost 0 defaultHost
  else some connectHost

def portBehind (espeaker : List Octet) (hostDiv : ℕ) : Option ℤ :=
  if hostDiv < espeaker.length then (strAt (espeaker ++ [0]) (hostDiv + 1)).map atoi
  else some esdDefaultPort

def parseIpv4 (connectHost : List Octet) (host : Option (List Octet)) : Option Peer :=
  match host with
  | none | some [] => some ⟨defaultHost, esdDefaultPort⟩
  | some espeaker => do
    let connectHost ← strncpy connectHost 0 espeaker 64
    let hostDiv ← strcspn connectHost colon
    let connectHost ← cutHost connectHost espeaker hostDiv
    let name ← strAt (connectHost.set 63 0) 0
    let port ← portBehind espeaker hostDiv
    return ⟨name, if port = 0 then esdDefaultPort else port⟩

/-! ## The strings that are meant -/

structure HostName extends Str Octet where
  plain : colon ∉ chars ∧ openBracket ∉ chars ∧ closeBracket ∉ chars

/-- An IPv6 address has two colons at least. -/
structure Ipv6Literal extends Str Octet where
  colons : 2 ≤ chars.count colon
  unbracketed : openBracket ∉ chars ∧ closeBracket ∉ chars

structure PortText where
  chars : List Octet
  number : ℕ
  digits_eq : digits 10 chars = some number
  range : 1 ≤ number ∧ number ≤ 65535

inductive HostForm
  | name (h : HostName)
  | nameAt (h : HostName) (p : PortText)
  | literal (v : Ipv6Literal)
  | bracketed (v : Ipv6Literal)
  | bracketedAt (v : Ipv6Literal) (p : PortText)

namespace HostForm

def text : HostForm → List Octet
  | name h => h.chars
  | nameAt h p => h.chars ++ colon :: p.chars
  | literal v => v.chars
  | bracketed v => openBracket :: (v.chars ++ [closeBracket])
  | bracketedAt v p => openBracket :: (v.chars ++ closeBracket :: colon :: p.chars)

/-- What the string means, with the address of the host itself for an empty one. -/
def peer (localhost : List Octet) : HostForm → Peer
  | name h => ⟨if h.chars = [] then localhost else h.chars, esdDefaultPort⟩
  | nameAt h p => ⟨if h.chars = [] then localhost else h.chars, p.number⟩
  | literal v | bracketed v => ⟨v.chars, esdDefaultPort⟩
  | bracketedAt v p => ⟨v.chars, p.number⟩

def IsName : HostForm → Prop
  | name _ | nameAt .. => True
  | _ => False

/-- The host fits into the array, and there is a port behind brackets. -/
def Fits : HostForm → Prop
  | name h | nameAt h _ => h.chars.length < 64
  | literal v | bracketedAt v _ => v.chars.length < 64
  | bracketed _ => False

instance (form : HostForm) : Decidable form.Fits :=
  match form with
  | name _ | nameAt .. | literal _ | bracketedAt .. => inferInstanceAs (Decidable (_ < _))
  | bracketed _ => .isFalse id

end HostForm

section Parts

variable {connectHost s : List Octet} {port : ℤ}

theorem PortText.plain (p : PortText) :
    0 ∉ p.chars ∧ colon ∉ p.chars ∧ closeBracket ∉ p.chars := by
  have hrange : ∀ c ∈ p.chars, 48 ≤ c.toNat ∧ c.toNat ≤ 57 := fun c hc =>
    isDigit_range (digits_all p.digits_eq c hc)
  refine ⟨fun h => ?_, fun h => ?_, fun h => ?_⟩
  · exact absurd (hrange _ h) (by decide)
  · exact absurd (hrange _ h) (by decide)
  · exact absurd (hrange _ h) (by decide)

theorem PortText.atoi (p : PortText) : Esound.atoi p.chars = p.number := by
  have hrange := p.range
  have hclamp : clamp p.number = p.number := by
    simp only [clamp]
    omega
  rw [Esound.atoi, strtol_digits p.digits_eq, hclamp]
  exact int32_of_range (by omega) (by omega)

theorem PortText.number_ne_zero (p : PortText) : (p.number : ℤ) ≠ 0 := by
  have hrange := p.range
  omega

theorem Ipv6Literal.ne_nil (v : Ipv6Literal) : v.chars ≠ [] := by
  intro hnil
  have hcolons := v.colons
  rw [hnil] at hcolons
  simp at hcolons

theorem Ipv6Literal.bracketed_colons (v : Ipv6Literal) (after : List Octet) :
    (openBracket :: (v.chars ++ closeBracket :: after)).count colon ≠ 1 ∧
      (openBracket :: (v.chars ++ closeBracket :: after)).count colon ≠ 0 := by
  have hcolons := v.colons
  have hopen : openBracket ≠ colon := by decide
  rw [List.count_cons_of_ne hopen, List.count_append]
  omega

/-- A 0 written at the end of the string, or behind it, leaves the string. -/
theorem set_zero_beyond {i : ℕ} (h : s.length ≤ i) (after : List Octet) :
    ∃ after', (s ++ 0 :: after).set i 0 = s ++ 0 :: after' := by
  rw [List.set_append_right _ _ h]
  cases i - s.length with
  | zero => exact ⟨after, rfl⟩
  | succ j => exact ⟨after.set j 0, rfl⟩

/-! ## The first parser -/

theorem settleIpv6_string (hs : 0 ∉ s) {after : List Octet} (hlength : 10 ≤ (s ++ 0 :: after).length) :
    settleIpv6 (s ++ 0 :: after) port =
      some ⟨if s = [] then ascii "localhost" else s, if port = 0 then esdDefaultPort else port⟩ := by
  have hlocal : 0 ∉ ascii "localhost" := by decide
  simp only [settleIpv6, orLocalhost, strlen_string hs, Option.bind_eq_bind, Option.bind_some]
  by_cases hnil : s = []
  · subst hnil
    have hfits : (ascii "localhost").length < ([] ++ 0 :: after : List Octet).length := hlength
    rw [if_pos List.length_nil, strcpy_fits hfits, Option.bind_some, strAt_zero hlocal, if_pos rfl]
    rfl
  · rw [if_neg (by simpa using hnil), Option.bind_some, strAt_zero hs, if_neg hnil]
    rfl

/-- A host that was found is what the peer is looked up by, if it fits into the array. -/
theorem parseIpv6_found (c : ConnectHost) {host : List Octet}
    (hs : 0 ∉ s) (hsplit : ∀ connectHost : List Octet,
      splitIpv6 connectHost host = (strcpy connectHost 0 s).map fun connectHost => (connectHost, port)) :
    parseIpv6 c.octets (some host) =
      if s.length < 64 then
        some ⟨if s = [] then ascii "localhost" else s, if port = 0 then esdDefaultPort else port⟩
      else none := by
  have hlength : (c.octets.set 0 0).length = 64 := by rw [List.length_set, c.length_eq]
  simp only [parseIpv6, hsplit]
  by_cases hfits : s.length < 64
  · have hwhole : 10 ≤ (s ++ 0 :: (c.octets.set 0 0).drop (s.length + 1)).length := by
      simp only [List.length_append, List.length_cons, List.length_drop, hlength]
      omega
    rw [strcpy_fits (hlength ▸ hfits), Option.map_some, Option.bind_some, settleIpv6_string hs hwhole,
      if_pos hfits]
  · rw [strcpy_beyond (by omega), if_neg hfits]
    rfl

theorem splitIpv6_plain (hs : 0 ∉ s) (hcolons : s.count colon ≠ 1)
    (hbracket : s.count colon = 0 ∨ closeBracket ∉ s) (connectHost : List Octet) :
    splitIpv6 connectHost s =
      (strcpy connectHost 0 s).map fun connectHost => (connectHost, esdDefaultPort) := by
  have hno : ¬ (s.count colon ≠ 0 ∧ closeBracket ∈ s) := fun h => hbracket.elim h.1 (· h.2)
  rw [splitIpv6, if_neg hcolons, if_neg hno]
  simp only [strAt_zero hs, Option.bind_eq_bind, Option.bind_some]
  rw [Option.map_eq_bind]
  rfl

/-- Where a separator stands, and what it separates. -/
theorem separated {x : Octet} (before : List Octet) (hbefore : x ∉ before) (after : List Octet) :
    (before ++ x :: after).idxOf x = before.length ∧
      (before ++ x :: after).set before.length 0 = before ++ 0 :: after := by
  constructor
  · rw [List.idxOf_append_of_notMem hbefore, List.idxOf_cons_self, Nat.add_zero]
  · rw [List.set_append_right _ _ le_rfl, Nat.sub_self]
    rfl

theorem splitIpv6_port (hs : 0 ∉ s ∧ colon ∉ s) (p : PortText) (connectHost : List Octet) :
    splitIpv6 connectHost (s ++ colon :: p.chars) =
      (strcpy connectHost 0 s).map fun connectHost => (connectHost, (p.number : ℤ)) := by
  have hcount : (s ++ colon :: p.chars).count colon = 1 := by
    rw [List.count_append, List.count_cons_self, List.count_eq_zero.mpr hs.2,
      List.count_eq_zero.mpr p.plain.2.1]
  have htext : s ++ colon :: p.chars ++ [0] = s ++ colon :: (p.chars ++ [0]) := by simp
  obtain ⟨hindex, hset⟩ := separated s hs.2 (p.chars ++ [0])
  have hbehind : strAt (s ++ 0 :: (p.chars ++ [0])) (s.length + 1) = some p.chars := by
    have hstring := strAt_string p.plain.1 (s ++ [0]) []
    simpa using hstring
  rw [splitIpv6, if_pos hcount, htext, hindex]
  simp only [hset, strAt_zero hs.1, hbehind, Option.bind_eq_bind, Option.bind_some, p.atoi]
  rw [Option.map_eq_bind]
  rfl

theorem splitIpv6_bracketed (hs : 0 ∉ s ∧ closeBracket ∉ s) {after : List Octet}
    (hcolons : (openBracket :: (s ++ closeBracket :: after)).count colon ≠ 1 ∧
      (openBracket :: (s ++ closeBracket :: after)).count colon ≠ 0) (connectHost : List Octet) :
    splitIpv6 connectHost (openBracket :: (s ++ closeBracket :: after)) =
      (strcpy connectHost 0 s).bind fun connectHost =>
        (strAt (openBracket :: (s ++ 0 :: (after ++ [0]))) (s.length + 3)).map fun port =>
          (connectHost, atoi port) := by
  have htext : openBracket :: (s ++ closeBracket :: after) ++ [0] =
      (openBracket :: s) ++ closeBracket :: (after ++ [0]) := by simp
  have hopen : closeBracket ∉ openBracket :: s := by
    rw [List.mem_cons, not_or]
    exact ⟨by decide, hs.2⟩
  obtain ⟨hindex, hset⟩ := separated (openBracket :: s) hopen (after ++ [0])
  have hstring : strAt ((openBracket :: s) ++ 0 :: (after ++ [0])) 1 = some s :=
    strAt_string hs.1 [openBracket] (after ++ [0])
  rw [splitIpv6, if_neg hcolons.1, if_pos ⟨hcolons.2, by simp⟩, htext, hindex]
  simp only [hset, hstring, Option.bind_eq_bind, Option.bind_some, Option.map_eq_bind]
  rfl

/-! ## The second parser -/

theorem strncpy_espeaker (c : ConnectHost) (espeaker : List Octet) :
    strncpy c.octets 0 espeaker 64 =
      some (espeaker.take 64 ++ List.replicate (64 - espeaker.length) 0) := by
  apply put_whole
  simp only [List.length_append, List.length_take, List.length_replicate, c.length_eq]
  omega

/-- A host that was found, in the array and with what is behind it. -/
theorem parseIpv4_found (c : ConnectHost) {espeaker after : List Octet} {x : Octet}
    (hne : espeaker ≠ []) (hs : 0 ∉ s) (hx : x = colon ∧ s.length < espeaker.length ∨
      x = 0 ∧ s.length = espeaker.length)
    (hcolon : colon ∉ s) (hcopied : espeaker.take 64 ++ List.replicate (64 - espeaker.length) 0 =
      s ++ x :: after) (hport : portBehind espeaker s.length = some port) :
    parseIpv4 c.octets (some espeaker) =
      some ⟨if s = [] then defaultHost else s, if port = 0 then esdDefaultPort else port⟩ := by
  have hlength : s.length + (after.length + 1) = 64 := by
    have hlengths := congrArg List.length hcopied
    simp only [List.length_append, List.length_take, List.length_replicate, List.length_cons] at hlengths
    omega
  have hspan : strcspn (s ++ x :: after) colon = some s.length := by
    rcases hx with ⟨rfl, -⟩ | ⟨rfl, -⟩
    · exact strcspn_found hs hcolon after
    · exact strcspn_end hs hcolon after
  have hcut : ∃ after', cutHost (s ++ x :: after) espeaker s.length =
      some ((if s = [] then defaultHost else s) ++ 0 :: after') := by
    by_cases hnil : s = []
    · have hfits : defaultHost.length < (s ++ x :: after).length := by
        rw [List.length_append, List.length_cons, hlength]
        decide
      rw [cutHost, if_neg (by simp [hnil]), if_pos (by simp [hnil]), strcpy_fits hfits, if_pos hnil]
      exact ⟨_, rfl⟩
    · have hpos : 0 < s.length := List.length_pos_iff.mpr hnil
      rw [if_neg hnil, cutHost]
      rcases hx with ⟨rfl, hlt⟩ | ⟨rfl, heq⟩
      · rw [if_pos ⟨hpos, hlt⟩, (separated s hcolon after).2]
        exact ⟨after, rfl⟩
      · rw [if_neg (by omega), if_neg (by omega)]
        exact ⟨after, rfl⟩
  obtain ⟨after', hcut⟩ := hcut
  have hname : strAt (((if s = [] then defaultHost else s) ++ 0 :: after').set 63 0) 0 =
      some (if s = [] then defaultHost else s) := by
    have hstring : 0 ∉ (if s = [] then defaultHost else s) ∧
        (if s = [] then defaultHost else s).length ≤ 63 := by
      split_ifs
      · decide
      · exact ⟨hs, by omega⟩
    obtain ⟨after'', hset⟩ := set_zero_beyond hstring.2 after'
    rw [hset, strAt_zero hstring.1]
  cases espeaker with
  | nil => exact absurd rfl hne
  | cons o espeaker =>
    simp only [parseIpv4, strncpy_espeaker, hcopied, hspan, hcut, hname, hport, Option.bind_eq_bind,
      Option.bind_some]
    rfl

end Parts

theorem parseIpv4_long (c : ConnectHost) {espeaker : List Octet} (hs : 0 ∉ s ∧ colon ∉ s)
    (hlong : 64 ≤ s.length) (hbegins : s <+: espeaker) : parseIpv4 c.octets (some espeaker) = none := by
  have hle := hbegins.length_le
  have hcopied : strncpy c.octets 0 espeaker 64 = some (s.take 64) := by
    obtain ⟨after, rfl⟩ := hbegins
    rw [strncpy_espeaker, List.take_append_of_le_length hlong, Nat.sub_eq_zero_of_le (hlong.trans hle)]
    simp
  have hspan : strcspn (s.take 64) colon = none :=
    strcspn_unterminated (fun h => hs.1 (List.mem_of_mem_take h)) fun h => hs.2 (List.mem_of_mem_take h)
  cases espeaker with
  | nil => exact absurd (hlong.trans hle) (by simp)
  | cons o espeaker =>
    simp only [parseIpv4, hcopied, hspan, Option.bind_eq_bind, Option.bind_some, Option.bind_none]

section Forms

variable (c : ConnectHost)

/-- The first parser, for every form: the peer that is meant, or an access beyond an array. -/
theorem parseIpv6_form (form : HostForm) : parseIpv6 c.octets (some form.text) =
    if form.Fits then some (form.peer (ascii "localhost")) else none := by
  have hdefault : (if esdDefaultPort = 0 then esdDefaultPort else esdDefaultPort) = esdDefaultPort :=
    ite_self _
  cases form with
  | name h =>
    have hcount : h.chars.count colon = 0 := List.count_eq_zero.mpr h.plain.1
    exact (parseIpv6_found c h.nonzero (splitIpv6_plain h.nonzero (by omega) (.inl hcount))).trans
      (by rw [hdefault]; rfl)
  | nameAt h p =>
    have hfound := parseIpv6_found c h.nonzero (splitIpv6_port ⟨h.nonzero, h.plain.1⟩ p)
    rw [if_neg p.number_ne_zero] at hfound
    exact hfound
  | literal v =>
    have hcolons := v.colons
    have hfound := parseIpv6_found c v.nonzero
      (splitIpv6_plain v.nonzero (by omega) (.inr v.unbracketed.2))
    rw [hdefault, if_neg v.ne_nil] at hfound
    exact hfound
  | bracketed v =>
    have hsplit := fun connectHost => splitIpv6_bracketed ⟨v.nonzero, v.unbracketed.2⟩
      (v.bracketed_colons []) connectHost
    have hbeyond : strAt (openBracket :: (v.chars ++ 0 :: ([] ++ [0]))) (v.chars.length + 3) = none := by
      simp [strAt]
    have hnone : parseIpv6 c.octets (some (openBracket :: (v.chars ++ [closeBracket]))) = none := by
      simp only [parseIpv6, hsplit, hbeyond, Option.map_none, Option.bind_none, Option.bind_fun_none]
    exact hnone
  | bracketedAt v p =>
    have hcolon : 0 ∉ p.chars := p.plain.1
    have hbehind : strAt (openBracket :: (v.chars ++ 0 :: (colon :: p.chars ++ [0])))
        (v.chars.length + 3) = some p.chars := by
      have hstring := strAt_string hcolon (openBracket :: (v.chars ++ [0, colon])) []
      simpa using hstring
    have hsplit : ∀ connectHost : List Octet,
        splitIpv6 connectHost (openBracket :: (v.chars ++ closeBracket :: colon :: p.chars)) =
          (strcpy connectHost 0 v.chars).map fun connectHost => (connectHost, (p.number : ℤ)) := by
      intro connectHost
      rw [splitIpv6_bracketed ⟨v.nonzero, v.unbracketed.2⟩ (v.bracketed_colons (colon :: p.chars)),
        hbehind]
      simp only [Option.map_some, p.atoi]
      exact Option.map_eq_bind.symm
    have hfound := parseIpv6_found c v.nonzero hsplit
    rw [if_neg p.number_ne_zero, if_neg v.ne_nil] at hfound
    exact hfound

theorem parseIpv4_form {form : HostForm} (hname : form.IsName) :
    parseIpv4 c.octets (some form.text) =
      if form.Fits then some (form.peer defaultHost) else none := by
  cases form with
  | literal v => exact hname.elim
  | bracketed v => exact hname.elim
  | bracketedAt v p => exact hname.elim
  | name h =>
    by_cases hnil : h.chars = []
    · simp [HostForm.text, HostForm.Fits, HostForm.peer, hnil, parseIpv4]
    · by_cases hfits : h.chars.length < 64
      · have hcopied : h.chars.take 64 ++ List.replicate (64 - h.chars.length) 0 =
            h.chars ++ 0 :: List.replicate (63 - h.chars.length) 0 := by
          have hrest : 64 - h.chars.length = (63 - h.chars.length) + 1 := by omega
          rw [List.take_of_length_le hfits.le, hrest, List.replicate_succ]
        have hport : portBehind h.chars h.chars.length = some esdDefaultPort := if_neg (lt_irrefl _)
        have hfound := parseIpv4_found c hnil h.nonzero (.inr ⟨rfl, rfl⟩) h.plain.1 hcopied hport
        rw [ite_self] at hfound
        exact hfound.trans (if_pos hfits).symm
      · exact (parseIpv4_long c ⟨h.nonzero, h.plain.1⟩ (not_lt.mp hfits) (List.prefix_refl _)).trans
          (if_neg hfits).symm
  | nameAt h p =>
    by_cases hfits : h.chars.length < 64
    · have hcopied : (h.chars ++ colon :: p.chars).take 64 ++
          List.replicate (64 - (h.chars ++ colon :: p.chars).length) 0 =
            h.chars ++ colon :: (p.chars.take (63 - h.chars.length) ++
              List.replicate (64 - (h.chars ++ colon :: p.chars).length) 0) := by
        have hrest : 64 - h.chars.length = (63 - h.chars.length) + 1 := by omega
        rw [List.take_append, List.take_of_length_le hfits.le, hrest, List.take_succ_cons,
          List.append_assoc, List.cons_append]
      have hlt : h.chars.length < (h.chars ++ colon :: p.chars).length := by simp
      have hport : portBehind (h.chars ++ colon :: p.chars) h.chars.length = some (p.number : ℤ) := by
        have hstring : strAt (h.chars ++ colon :: p.chars ++ [0]) (h.chars.length + 1) = some p.chars := by
          have hbehind := strAt_string p.plain.1 (h.chars ++ [colon]) []
          simpa using hbehind
        rw [portBehind, if_pos hlt, hstring, Option.map_some, p.atoi]
      have hfound := parseIpv4_found c (by simp) h.nonzero (.inl ⟨rfl, hlt⟩) h.plain.1 hcopied hport
      rw [if_neg p.number_ne_zero] at hfound
      exact hfound.trans (if_pos hfits).symm
    · exact (parseIpv4_long c ⟨h.nonzero, h.plain.1⟩ (not_lt.mp hfits) ⟨_, rfl⟩).trans
        (if_neg hfits).symm

end Forms

/-- Each parser finds the peer that a string means, within its arrays, exactly if the host is
shorter than its array and a bracket that closes has a port behind it. -/
theorem host_parsed_iff (c : ConnectHost) (form : HostForm) :
    (parseIpv6 c.octets (some form.text) = some (form.peer (ascii "localhost")) ↔ form.Fits) ∧
      (form.IsName →
        (parseIpv4 c.octets (some form.text) = some (form.peer defaultHost) ↔ form.Fits)) := by
  constructor
  · rw [parseIpv6_form]
    split_ifs with hfits <;> simp [hfits]
  · intro hname
    rw [parseIpv4_form c hname]
    split_ifs with hfits <;> simp [hfits]

def zeroHost : ConnectHost := ⟨List.replicate 64 0, by decide⟩

def speakerAt : HostForm :=
  .nameAt ⟨⟨ascii "speaker", by decide⟩, by decide⟩ ⟨ascii "5001", 5001, by decide, by decide⟩

theorem host_parsed_iff_speaker :
    speakerAt.text = ascii "speaker:5001" ∧
      parseIpv6 zeroHost.octets (some speakerAt.text) = some ⟨ascii "speaker", 5001⟩ ∧
      parseIpv4 zeroHost.octets (some speakerAt.text) = some ⟨ascii "speaker", 5001⟩ :=
  ⟨by decide, (host_parsed_iff zeroHost speakerAt).1.mpr (by decide),
    ((host_parsed_iff zeroHost speakerAt).2 trivial).mpr (by decide)⟩

def loopback : Ipv6Literal := ⟨⟨ascii "::1", by decide⟩, by decide, by decide⟩

/-- Brackets with nothing behind them. -/
theorem read_behind_bracket :
    (HostForm.bracketed loopback).text = ascii "[::1]" ∧
      parseIpv6 zeroHost.octets (some (HostForm.bracketed loopback).text) ≠
        some ((HostForm.bracketed loopback).peer (ascii "localhost")) := by
  decide

end Esound
