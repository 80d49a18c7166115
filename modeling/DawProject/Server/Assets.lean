import DawProject.Lib.ConstantTime
import DawProject.Lib.Fips180
import DawProject.Lib.Replaced
import DawProject.Server.Origin

/-!
The store of assets, `server/src/api/assets.rs`: what a request is refused for,
and the files under their hashes. An upload is written to a temporary name of
its key and renamed. While no two uploads of one key overlap, every key of 64
digits holds what it is the hash of, whatever stops the server, older keys are
never written, and what was stored is never lost. Two uploads of one key share
the temporary name, and one of them can publish what the other has begun.
-/

namespace DawProject.Server.Assets

open Replaced

/-- The headers that the handlers read. -/
structure Headers where
  origin : Option (List UInt8) := none
  authorization : Option (List UInt8) := none

/-- `HeaderValue::to_str`: only visible characters. -/
def to_str (value : List UInt8) : Option (List UInt8) :=
  if value.all fun b => (32 ≤ b && b < 127) || b == 9 then some value else none

def origin_allowed (headers : Headers) : Bool :=
  match headers.origin with
  | none => true
  | some value =>
      match to_str value with
      | some text => is_local_origin (text.map fun b => Char.ofNat b.toNat)
      | none => false

def constant_time_eq (a b : List UInt8) : Bool :=
  if a.length != b.length then false else ConstantTime.differences a b == 0

/-- `Bearer` and a space. -/
def bearer : List UInt8 := [66, 101, 97, 114, 101, 114, 32]

def strip_prefix (before text : List UInt8) : Option (List UInt8) :=
  if before.isPrefixOf text then some (text.drop before.length) else none

def isSpace (b : UInt8) : Bool := b == 32 || b == 9

def trim (text : List UInt8) : List UInt8 :=
  ((text.dropWhile isSpace).reverse.dropWhile isSpace).reverse

def bearer_ok (headers : Headers) (expected : Option (List UInt8)) : Bool :=
  match expected with
  | none => true
  | some token =>
      match (headers.authorization.bind to_str).bind fun text => strip_prefix bearer text with
      | some got => constant_time_eq (trim got) token
      | none => false

def is_ascii_hexdigit (c : Char) : Bool :=
  c.isDigit || (decide ('a' ≤ c) && decide (c ≤ 'f')) || (decide ('A' ≤ c) && decide (c ≤ 'F'))

/-- A name in the directory of the assets. -/
abbrev Name : Type := List Char

def wav (hash : List Char) : Name := hash ++ ['.', 'w', 'a', 'v']

def tmp (hash : List Char) : Name := hash ++ ['.', 't', 'm', 'p']

def asset_file (hash : List Char) : Option Name :=
  if hash.isEmpty || decide (64 < hash.length) || !hash.all is_ascii_hexdigit then none
  else some (wav hash)

inductive Status where
  | ok
  | created
  | badRequest
  | unauthorized
  | forbidden
  | notFound
deriving DecidableEq, Repr

/-- What both handlers check first. -/
def checked (token : Option (List UInt8)) (headers : Headers) (hash : List Char) :
    Except Status Name :=
  if origin_allowed headers then
    if bearer_ok headers token then
      match asset_file hash with
      | some path => .ok path
      | none => .error .badRequest
    else .error .unauthorized
  else .error .forbidden

def get_asset (token : Option (List UInt8)) (headers : Headers) (hash : List Char)
    (files : Files Name UInt8) : Status × Option (List UInt8) :=
  match checked token headers hash with
  | .ok path =>
      match files.read path with
      | some bytes => (.ok, some bytes)
      | none => (.notFound, none)
  | .error status => (status, none)

def to_ascii_lowercase (hash : List Char) : List Char := hash.map Char.toLower

-- The hash in lower digits, by the digest that the server uses.
variable (sha256Hex : List UInt8 → List Char)

/-- The upload that a request is admitted with, up to the writing of the file. -/
def put_asset (token : Option (List UInt8)) (headers : Headers) (hash : List Char)
    (body : List UInt8) : Except Status (Job Name UInt8) :=
  match checked token headers hash with
  | .ok path =>
      if hash.length ≠ 64 then .error .badRequest
      else if sha256Hex body ≠ to_ascii_lowercase hash then .error .badRequest
      else .ok { target := path, tmp := tmp hash, data := body }
  | .error status => .error status

/-- The uploads that are written. -/
def Uploads (token : Option (List UInt8)) (job : Job Name UInt8) : Prop :=
  ∃ headers hash body, put_asset sha256Hex token headers hash body = .ok job

/-- A step of the store in which no two uploads of one key overlap. -/
abbrev StoreStep (token : Option (List UInt8)) :
    System Name ℕ UInt8 → System Name ℕ UInt8 → Prop :=
  SoloStep (Uploads sha256Hex token) fun name => ∃ hash, name = tmp hash

/-- A key of 64 digits holds what it is the hash of. -/
def Addressed (files : Files Name UInt8) : Prop :=
  ∀ hash held, hash.length = 64 → files.read (wav hash) = some held →
    sha256Hex held = to_ascii_lowercase hash

structure Sound (token : Option (List UInt8)) (first : Files Name UInt8)
    (s : System Name ℕ UInt8) : Prop where
  addressed : Addressed sha256Hex s.files
  /-- What is answered for a key is what it is the hash of. -/
  answers : ∀ headers hash bytes, get_asset token headers hash s.files = (.ok, some bytes) →
    hash.length = 64 → sha256Hex bytes = to_ascii_lowercase hash
  /-- A read that takes long ends with what it began with. -/
  readers : ∀ r ∈ s.readers, ∀ hash, r.name = wav hash → hash.length = 64 →
    s.files.content r.inode = r.held ∧ sha256Hex r.held = to_ascii_lowercase hash
  legacy : ∀ hash, hash.length ≠ 64 → s.files.read (wav hash) = first.read (wav hash)
  stays : ∀ hash, (first.read (wav hash) ≠ none ∨ ∃ job ∈ s.finished, job.target = wav hash) →
    s.files.read (wav hash) ≠ none

section Names

theorem wav_injective {a b : List Char} (h : wav a = wav b) : a = b :=
  List.append_cancel_right h

theorem wav_ne_tmp (a b : List Char) : wav a ≠ tmp b := by
  intro h
  have hlast := congrArg List.getLast? h
  simp [wav, tmp] at hlast

end Names

section Upload

variable {sha256Hex} {token : Option (List UInt8)} {job : Job Name UInt8}

theorem asset_file_eq {hash : List Char} {path : Name} (h : asset_file hash = some path) :
    path = wav hash ∧ hash ≠ [] ∧ hash.length ≤ 64 ∧ ∀ c ∈ hash, is_ascii_hexdigit c = true := by
  unfold asset_file at h
  split at h
  · cases h
  · rename_i hfine
    simp only [Bool.or_eq_true, List.isEmpty_iff, decide_eq_true_eq, Bool.not_eq_true',
      not_or, Bool.not_eq_false, List.all_eq_true] at hfine
    exact ⟨(Option.some.inj h).symm, hfine.1.1, by omega, hfine.2⟩

theorem checked_eq {headers : Headers} {hash : List Char} {path : Name}
    (h : checked token headers hash = .ok path) :
    origin_allowed headers = true ∧ bearer_ok headers token = true ∧
      asset_file hash = some path := by
  unfold checked at h
  split at h
  · rename_i horigin
    split at h
    · rename_i hbearer
      split at h
      · rename_i path' hpath
        injection h with heq
        rw [← heq]
        exact ⟨horigin, hbearer, hpath⟩
      · cases h
    · cases h
  · cases h

/-- What an upload writes, and where. -/
theorem uploads_eq (h : Uploads sha256Hex token job) : ∃ hash : List Char, hash.length = 64 ∧
    job.target = wav hash ∧ job.tmp = tmp hash ∧
    sha256Hex job.data = to_ascii_lowercase hash := by
  obtain ⟨headers, hash, body, hput⟩ := h
  unfold put_asset at hput
  split at hput
  · rename_i path hchecked
    split at hput
    · cases hput
    · rename_i hlength
      split at hput
      · cases hput
      · rename_i hdigest
        injection hput with hjob
        obtain ⟨hpath, -⟩ := asset_file_eq (checked_eq hchecked).2.2
        rw [← hjob]
        exact ⟨hash, not_not.mp hlength, hpath, rfl, not_not.mp hdigest⟩
  · cases hput

end Upload

/-- In every run in which no two uploads of one key overlap. -/
theorem addressed_of_run {token : Option (List UInt8)} {first : Files Name UInt8}
    {s : System Name ℕ UInt8} (hlinked : first.Linked) (hfirst : Addressed sha256Hex first)
    (hrun : Run.Reaches (StoreStep sha256Hex token) { files := first } s) :
    Sound sha256Hex token first s := by
  have hkept := files_of_run (Uploads sha256Hex token) (fun job hjob => ?_) hlinked hrun
  · have hwav : ∀ hash, ¬ ∃ other, wav hash = tmp other := by
      rintro hash ⟨other, heq⟩
      exact wav_ne_tmp hash other heq
    have hwhole : ∀ hash held, hash.length = 64 →
        Whole first s.finished (wav hash) held → sha256Hex held = to_ascii_lowercase hash := by
      rintro hash held hlength (hold | ⟨job, hjob, htarget, rfl⟩)
      · exact hfirst hash held hlength hold
      · obtain ⟨other, -, hother, -, hdigest⟩ := uploads_eq (hkept.lawful job hjob)
        rw [hdigest, wav_injective (hother.symm.trans htarget)]
    have haddressed : Addressed sha256Hex s.files := fun hash held hlength hread =>
      hwhole hash held hlength (hkept.whole _ _ (hwav hash) hread)
    refine ⟨haddressed, ?_, ?_, ?_, ?_⟩
    · intro headers hash bytes hget hlength
      unfold get_asset at hget
      split at hget
      · rename_i path hchecked
        obtain ⟨rfl, -⟩ := asset_file_eq (checked_eq hchecked).2.2
        split at hget
        · rename_i found hread
          injection hget with _ hbytes
          obtain rfl := Option.some.inj hbytes
          exact haddressed hash _ hlength hread
        · injection hget with _ hnone
          cases hnone
      · injection hget with _ hnone
        cases hnone
    · intro r hr hash hname hlength
      obtain ⟨hheld, hfrom⟩ := hkept.readers r hr
      rw [hname] at hfrom
      exact ⟨hheld, hwhole hash _ hlength hfrom⟩
    · intro hash hlength
      have hinode := hkept.others (wav hash) (hwav hash) fun job hjob htarget => by
        obtain ⟨other, hother, hwas, -⟩ := uploads_eq hjob
        exact hlength (wav_injective (hwas.symm.trans htarget) ▸ hother)
      cases hread : s.files.read (wav hash) with
      | none =>
          rw [Files.read, Option.map_eq_none_iff, hinode] at hread
          rw [Files.read, hread, Option.map_none]
      | some held =>
          rcases hkept.whole _ _ (hwav hash) hread with hold | ⟨job, hjob, htarget, -⟩
          · exact hold.symm
          · obtain ⟨other, hother, hwas, -⟩ := uploads_eq (hkept.lawful job hjob)
            exact absurd (wav_injective (hwas.symm.trans htarget) ▸ hother) hlength
    · intro hash hthere hnone
      rw [Files.read, Option.map_eq_none_iff] at hnone
      refine hkept.stays _ (hwav hash) (hthere.imp_left ?_) hnone
      intro hread hinode
      exact hread (by rw [Files.read, hinode, Option.map_none])
  · obtain ⟨hash, -, htarget, htmp, -⟩ := uploads_eq hjob
    refine ⟨⟨hash, htmp⟩, ?_⟩
    rintro ⟨other, heq⟩
    exact wav_ne_tmp hash other (htarget.symm.trans heq)

/-- Two uploads of one body overlap, and the key holds nothing of it. -/
theorem not_addressed_of_overlap {token : Option (List UInt8)} {job : Job Name UInt8}
    (hupload : Uploads sha256Hex token job) (hempty : sha256Hex [] ≠ sha256Hex job.data) :
    ∃ s : System Name ℕ UInt8, Run.Reaches (Step (Uploads sha256Hex token)) { files := {} } s ∧
      ¬ Addressed sha256Hex s.files := by
  obtain ⟨hash, hlength, htarget, htmp, hdigest⟩ := uploads_eq hupload
  have hne : job.target ≠ job.tmp := by
    rw [htarget, htmp]
    exact wav_ne_tmp hash hash
  obtain ⟨s, hrun, hread⟩ := empty_of_overlap (Uploads sha256Hex token) {} hupload hne
    Nat.zero_ne_one
  refine ⟨s, hrun, fun haddressed => ?_⟩
  rw [htarget] at hread
  exact hempty ((haddressed hash [] hlength hread).trans hdigest.symm)

section Example

open Fips180 (hex digest ofBytes)

theorem length_hex (l : List Bool) : (hex l).length = l.length / 4 := by
  induction l using Fips180.hex.induct with
  | case1 b₃ b₂ b₁ b₀ l ih =>
      rw [hex, List.length_cons, ih]
      simp only [List.length_cons]
      omega
  | case2 l hshort =>
      have hlength : l.length < 4 := by
        rcases l with _ | ⟨b₃, _ | ⟨b₂, _ | ⟨b₁, _ | ⟨b₀, rest⟩⟩⟩⟩
        · exact Nat.zero_lt_succ _
        · exact (by decide : 1 < 4)
        · exact (by decide : 2 < 4)
        · exact (by decide : 3 < 4)
        · exact absurd rfl (hshort b₃ b₂ b₁ b₀ rest)
      rw [hex, List.length_nil, Nat.div_eq_of_lt hlength]
      exact hshort

theorem mem_hex {l : List Bool} {c : Char} (hc : c ∈ hex l) : ∃ n < 16, c = Nat.digitChar n := by
  induction l using Fips180.hex.induct with
  | case1 b₃ b₂ b₁ b₀ l ih =>
      rw [hex] at hc
      rcases List.mem_cons.mp hc with rfl | hrest
      · refine ⟨_, ?_, rfl⟩
        cases b₃ <;> cases b₂ <;> cases b₁ <;> cases b₀ <;> decide
      · exact ih hrest
  | case2 l hshort =>
      rw [hex] at hc
      · exact absurd hc List.not_mem_nil
      · exact hshort

/-- The digest of a body in hexadecimal digits. -/
def hexDigest (body : List UInt8) : List Char := hex (digest (ofBytes body))

theorem length_hexDigest (body : List UInt8) : (hexDigest body).length = 64 := by
  have hbits : (digest (ofBytes body)).length = 256 := by
    simp [digest, Fips180.bits, List.length_flatMap]
  rw [hexDigest, length_hex, hbits]

theorem put_hexDigest (body : List UInt8) : put_asset hexDigest none {} (hexDigest body) body =
    .ok ⟨wav (hexDigest body), tmp (hexDigest body), body⟩ := by
  have hdigits : ∀ n < 16, is_ascii_hexdigit (Nat.digitChar n) = true ∧
      (Nat.digitChar n).toLower = Nat.digitChar n := by decide
  have hhex : (hexDigest body).all is_ascii_hexdigit = true := by
    rw [List.all_eq_true]
    intro c hc
    obtain ⟨n, hn, rfl⟩ := mem_hex hc
    exact (hdigits n hn).1
  have hlower : to_ascii_lowercase (hexDigest body) = hexDigest body := by
    refine (List.map_congr_left ?_).trans (List.map_id _)
    intro c hc
    obtain ⟨n, hn, rfl⟩ := mem_hex hc
    exact (hdigits n hn).2
  have hlength := length_hexDigest body
  have hne : (hexDigest body).isEmpty = false := by
    cases hdigest : hexDigest body with
    | nil =>
        rw [hdigest] at hlength
        cases hlength
    | cons c rest => rfl
  have hfile : asset_file (hexDigest body) = some (wav (hexDigest body)) := by
    rw [asset_file, hne, hhex, hlength]
    rfl
  have hchecked : checked none {} (hexDigest body) = .ok (wav (hexDigest body)) := by
    rw [checked, hfile]
    rfl
  rw [put_asset, hchecked]
  dsimp only
  rw [if_neg (not_not.mpr hlength), if_neg (not_not.mpr hlower.symm)]

theorem storeStep_of_one {s next : System Name ℕ UInt8}
    (hstep : Step (Uploads hexDigest none) s next)
    (hone : ∀ v u, next.writers v = some u → v = 0) (hreaders : next.readers = []) :
    StoreStep hexDigest none s next := by
  refine ⟨hstep, fun w v u u' hw hv _ => (hone w u hw).trans (hone v u' hv).symm, ?_⟩
  rw [hreaders]
  exact fun r hr => absurd hr List.not_mem_nil

/-- One body is uploaded. -/
theorem addressed_of_run_oneByte : ∃ s : System Name ℕ UInt8,
    Sound hexDigest none {} s ∧ s.finished.map Job.data = [[1]] := by
  have hallowed : Uploads hexDigest none
      ⟨wav (hexDigest [1]), tmp (hexDigest [1]), [1]⟩ := ⟨{}, _, [1], put_hexDigest [1]⟩
  have hstarted : Run.Reaches (StoreStep hexDigest none)
      ({ files := {} } : System Name ℕ UInt8) _ :=
    Relation.ReflTransGen.single (storeStep_of_one (.start 0 _ rfl hallowed) (by
      intro v u hv
      rcases update_writer hv with ⟨rfl, -⟩ | ⟨-, hnone⟩
      · rfl
      · cases hnone) rfl)
  have hwritten := hstarted.tail (storeStep_of_one
    (.write [1] (Function.update_self 0 _ _) (List.prefix_refl _)) (by
      intro v u hv
      rcases update_writer hv with ⟨rfl, -⟩ | ⟨hne, hold⟩
      · rfl
      · rcases update_writer hold with ⟨rfl, -⟩ | ⟨-, hnone⟩
        · rfl
        · cases hnone) rfl)
  have hrenamed := hwritten.tail (storeStep_of_one
    (.rename (Function.update_self 0 _ _) rfl (by
      dsimp only [Files.append]
      rw [truncate_inode, Function.update_self]
      exact Option.some_ne_none _)) (by
      intro v u hv
      rcases update_writer hv with ⟨rfl, -⟩ | ⟨hne, hold⟩
      · rfl
      · rcases update_writer hold with ⟨rfl, -⟩ | ⟨-, hold⟩
        · rfl
        · rcases update_writer hold with ⟨rfl, -⟩ | ⟨-, hnone⟩
          · rfl
          · cases hnone) rfl)
  refine ⟨_, addressed_of_run hexDigest ?_ ?_ hrenamed, rfl⟩
  · exact ⟨fun _ _ hnone => absurd hnone.symm (Option.some_ne_none _),
      fun _ _ _ hnone => absurd hnone.symm (Option.some_ne_none _)⟩
  · intro hash held _ hread
    cases hread

end Example

end DawProject.Server.Assets
