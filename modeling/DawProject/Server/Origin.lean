import Mathlib.Data.List.TakeWhile

/-!
The allowlist of origins, `is_local_origin` of `server/src/api/origin.rs`, over
the origins that a browser writes: a scheme, a host and perhaps a port. It
accepts no host but a local one, and every local one but the bracketed one,
which holds the separator that its host is cut at.
-/

namespace DawProject.Server

section Guard

/-- `split_once`: the text on both sides of the first occurrence. -/
def split_once (pattern : List Char) : List Char → Option (List Char × List Char)
  | [] => none
  | c :: rest =>
      if pattern.isPrefixOf (c :: rest) then some ([], (c :: rest).drop pattern.length)
      else (split_once pattern rest).map fun (before, after) => (c :: before, after)

/-- What the guard ends a host at. -/
def isHostEnd (c : Char) : Bool := c == ':' || c == '/'

def allowedHosts : List (List Char) :=
  ["localhost".toList, "127.0.0.1".toList, "[::1]".toList, "::1".toList]

def is_local_origin (origin : List Char) : Bool :=
  let after := ((split_once "://".toList origin).map Prod.snd).getD origin
  let host := after.takeWhile fun c => !isHostEnd c
  allowedHosts.contains host

end Guard

section Grammar

structure Scheme where
  first : Char
  rest : List Char
  hfirst : first.isAlpha = true
  hrest : ∀ c ∈ rest, (c.isAlphanum || c == '+' || c == '-' || c == '.') = true

def Scheme.text (s : Scheme) : List Char := s.first :: s.rest

def isLabelChar (c : Char) : Bool := c.isAlphanum || c == '-' || c == '_'

/-- One part of a DNS name. -/
structure Label where
  text : List Char
  hne : text ≠ []
  htext : ∀ c ∈ text, isLabelChar c = true

/-- Labels with a dot between them, and perhaps the dot of the root. -/
structure DnsName where
  first : Label
  rest : List Label
  root : Bool := false

def DnsName.text (name : DnsName) : List Char :=
  name.first.text ++ name.rest.flatMap (fun label => '.' :: label.text) ++
    if name.root then ['.'] else []

/-- The four bytes of an address. -/
structure Ipv4 where
  a : UInt8
  b : UInt8
  c : UInt8
  d : UInt8

/-- A number in decimal digits. -/
def decimal (n : Nat) : List Char := Nat.toDigits 10 n

def Ipv4.text (address : Ipv4) : List Char :=
  decimal address.a.toNat ++ '.' :: decimal address.b.toNat ++ '.' :: decimal address.c.toNat ++
    '.' :: decimal address.d.toNat

/-- Two bytes of an address, in one to four hexadecimal digits. -/
structure HexGroup where
  text : List Char
  hne : text ≠ []
  hlength : text.length ≤ 4
  htext : ∀ c ∈ text, (c.isDigit || ('a' ≤ c && c ≤ 'f') || ('A' ≤ c && c ≤ 'F')) = true

/-- Groups with a colon between them; the last two of them may be an address of
four bytes. -/
structure Groups where
  groups : List HexGroup
  last : Option Ipv4

def Groups.width (g : Groups) : Nat := g.groups.length + if g.last.isSome then 2 else 0

def Groups.text (g : Groups) : List Char :=
  [':'].intercalate (g.groups.map HexGroup.text ++ g.last.toList.map Ipv4.text)

/-- Eight groups, or two colons for a run of zeros. -/
inductive Ipv6 where
  | full (g : Groups) (hwidth : g.width = 8)
  | short (before : List HexGroup) (after : Groups) (hwidth : before.length + after.width < 8)

def Ipv6.text : Ipv6 → List Char
  | .full g _ => g.text
  | .short before after _ => Groups.text ⟨before, none⟩ ++ ':' :: ':' :: after.text

inductive HostName where
  | dns (name : DnsName)
  | ipv4 (address : Ipv4)
  | ipv6 (address : Ipv6)

def HostName.text : HostName → List Char
  | .dns name => name.text
  | .ipv4 address => address.text
  | .ipv6 address => '[' :: address.text ++ [']']

structure Port where
  text : List Char
  htext : ∀ c ∈ text, c.isDigit = true

structure Origin where
  scheme : Scheme
  host : HostName
  port : Option Port

def Origin.text (o : Origin) : List Char :=
  o.scheme.text ++ "://".toList ++ o.host.text ++
    match o.port with
    | none => []
    | some port => ':' :: port.text

/-- The host is of this machine. -/
def HostName.IsLocal (host : HostName) : Prop :=
  host.text ∈ ["localhost".toList, "127.0.0.1".toList, "[::1]".toList]

end Grammar

section Cut

variable {before after host port pattern : List Char} {c : Char}

theorem split_once_append (hbefore : ∀ c ∈ before, c ≠ ':') :
    split_once "://".toList (before ++ "://".toList ++ after) = some (before, after) := by
  induction before with
  | nil => simp [split_once]
  | cons c before ih =>
      have hc : c ≠ ':' := hbefore c List.mem_cons_self
      have hrest := ih fun c' hc' => hbefore c' (List.mem_cons_of_mem c hc')
      rw [List.cons_append, List.cons_append, split_once, if_neg, hrest]
      · rfl
      · simp [List.isPrefixOf, Ne.symm hc]

/-- The host goes up to its end, or to the port. -/
theorem takeWhile_host (hhost : ∀ c ∈ host, isHostEnd c = false)
    (hport : port = [] ∨ ∃ digits, port = ':' :: digits) :
    (host ++ port).takeWhile (fun c => !isHostEnd c) = host := by
  rw [List.takeWhile_append_of_pos (by simpa using hhost)]
  rcases hport with rfl | ⟨digits, rfl⟩
  · simp
  · simp [isHostEnd]

theorem Scheme.text_ne_colon (s : Scheme) : ∀ c ∈ s.text, c ≠ ':' := by
  rintro c hc rfl
  rcases List.mem_cons.mp hc with hfirst | hrest
  · exact absurd (hfirst ▸ s.hfirst) (by decide)
  · exact absurd (s.hrest _ hrest) (by decide)

/-- The guard compares what comes before the first separator after the scheme. -/
theorem is_local_origin_text (o : Origin) :
    ∃ port : List Char, (port = [] ∨ ∃ digits, port = ':' :: digits) ∧
      is_local_origin o.text =
        allowedHosts.contains ((o.host.text ++ port).takeWhile fun c => !isHostEnd c) := by
  have hcut (port : List Char) :
      split_once "://".toList (o.scheme.text ++ "://".toList ++ o.host.text ++ port) =
        some (o.scheme.text, o.host.text ++ port) := by
    rw [List.append_assoc]
    exact split_once_append o.scheme.text_ne_colon
  cases hport : o.port with
  | none =>
      refine ⟨[], Or.inl rfl, ?_⟩
      rw [is_local_origin, Origin.text, hport, hcut]
      rfl
  | some port =>
      refine ⟨':' :: port.text, Or.inr ⟨port.text, rfl⟩, ?_⟩
      rw [is_local_origin, Origin.text, hport, hcut]
      rfl

end Cut

section Hosts

theorem isHostEnd_of_isLabelChar {c : Char} (hc : isLabelChar c = true) : isHostEnd c = false := by
  by_contra hend
  simp only [isHostEnd, Bool.not_eq_false, Bool.or_eq_true, beq_iff_eq] at hend
  rcases hend with rfl | rfl <;> exact absurd hc (by decide)

theorem isHostEnd_of_isDigit {c : Char} (hc : c.isDigit = true) : isHostEnd c = false := by
  apply isHostEnd_of_isLabelChar
  simp [isLabelChar, Char.isAlphanum, hc]

theorem isHostEnd_decimal (n : Nat) : ∀ c ∈ decimal n, isHostEnd c = false := fun _ hc =>
  isHostEnd_of_isDigit (Nat.isDigit_of_mem_toDigits (by decide) (by decide) hc)

theorem isHostEnd_dns (name : DnsName) : ∀ c ∈ name.text, isHostEnd c = false := by
  intro c hc
  simp only [DnsName.text, List.mem_append, List.mem_flatMap, List.mem_cons] at hc
  rcases hc with (hfirst | ⟨label, -, rfl | hlabel⟩) | hroot
  · exact isHostEnd_of_isLabelChar (name.first.htext c hfirst)
  · rfl
  · exact isHostEnd_of_isLabelChar (label.htext c hlabel)
  · cases hname : name.root <;> simp [hname] at hroot
    rw [hroot]
    rfl

theorem isHostEnd_ipv4 (address : Ipv4) : ∀ c ∈ address.text, isHostEnd c = false := by
  intro c hc
  simp only [Ipv4.text, List.mem_append, List.mem_cons] at hc
  rcases hc with ((ha | rfl | hb) | rfl | hc) | rfl | hd
  · exact isHostEnd_decimal _ c ha
  · rfl
  · exact isHostEnd_decimal _ c hb
  · rfl
  · exact isHostEnd_decimal _ c hc
  · rfl
  · exact isHostEnd_decimal _ c hd

/-- A host without a separator is compared as it is. -/
theorem is_local_origin_of_plain (o : Origin)
    (hplain : ∀ c ∈ o.host.text, isHostEnd c = false) :
    is_local_origin o.text = true ↔ o.host.IsLocal := by
  obtain ⟨port, hport, hguard⟩ := is_local_origin_text o
  have hcolon : ∀ name : List Char, ':' ∈ name → o.host.text ≠ name := by
    rintro name hname hhost
    exact absurd (hplain ':' (hhost ▸ hname)) (by decide)
  rw [hguard, takeWhile_host hplain hport]
  simp only [allowedHosts, HostName.IsLocal, List.contains_iff_mem, List.mem_cons,
    List.not_mem_nil, or_false, hcolon "[::1]".toList (by decide),
    hcolon "::1".toList (by decide)]

/-- What is left of a bracketed host is not on the list. -/
theorem is_local_origin_of_bracket (o : Origin) {rest : List Char}
    (hhost : o.host.text = '[' :: rest) : is_local_origin o.text = false := by
  obtain ⟨port, -, hguard⟩ := is_local_origin_text o
  rw [hguard, hhost, List.cons_append, List.takeWhile_cons_of_pos (by decide)]
  have hlisted : ∀ name ∈ allowedHosts, name.head? = some '[' → ':' ∈ name := by decide
  rw [← Bool.not_eq_true, List.contains_iff_mem]
  intro hmem
  rcases List.mem_cons.mp (hlisted _ hmem rfl) with hbracket | hcolon
  · exact absurd hbracket (by decide)
  · exact absurd (List.mem_takeWhile_imp hcolon) (by decide)

theorem HostName.plain_or_bracket (host : HostName) :
    (∀ c ∈ host.text, isHostEnd c = false) ∨ ∃ rest, host.text = '[' :: rest := by
  cases host with
  | dns name => exact Or.inl (isHostEnd_dns name)
  | ipv4 address => exact Or.inl (isHostEnd_ipv4 address)
  | ipv6 address => exact Or.inr ⟨address.text ++ [']'], rfl⟩

/-- The guard is right about every host but the bracketed local one. -/
theorem is_local_origin_iff (o : Origin) :
    (is_local_origin o.text = true ↔ o.host.IsLocal) ↔ o.host.text ≠ "[::1]".toList := by
  rcases o.host.plain_or_bracket with hplain | ⟨rest, hhost⟩
  · refine iff_of_true (is_local_origin_of_plain o hplain) ?_
    intro hloopback
    have hcolon : ':' ∈ o.host.text := by
      rw [hloopback]
      decide
    exact absurd (hplain ':' hcolon) (by decide)
  · have hlocal : o.host.IsLocal ↔ o.host.text = "[::1]".toList := by
      simp [HostName.IsLocal, hhost]
    rw [is_local_origin_of_bracket o hhost, hlocal]
    simp only [Bool.false_eq_true, false_iff, ne_eq]

end Hosts

section Example

/-- The loopback address of version 6, with a port. -/
def loopbackOrigin : Origin where
  scheme := ⟨'h', "ttp".toList, by decide, List.all_eq_true.mp (by decide)⟩
  host := .ipv6 (.short [] ⟨[⟨['1'], by decide, by decide, List.all_eq_true.mp (by decide)⟩], none⟩
    (by decide))
  port := some ⟨"5173".toList, List.all_eq_true.mp (by decide)⟩

/-- The guard refuses `http://[::1]:5173`. -/
theorem not_is_local_origin_loopback :
    loopbackOrigin.text = "http://[::1]:5173".toList ∧
      ¬ ∀ o : Origin, is_local_origin o.text = true ↔ o.host.IsLocal := by
  refine ⟨by decide, ?_⟩
  intro hguard
  have hlocal : loopbackOrigin.host.IsLocal := by
    unfold HostName.IsLocal
    decide
  exact absurd ((hguard loopbackOrigin).mpr hlocal) (by decide)

end Example

end DawProject.Server
