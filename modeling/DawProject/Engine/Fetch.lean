import DawProject.Engine.PathSafety
import DawProject.Lib.Backoff
import DawProject.Lib.Run

/-!
Assets that the engine fetches from the server, `fetchAssetFromServer` of
`engine/src/main.cpp`. A hash that could not be fetched is not asked for again
before a pause that doubles up to 30 seconds, and one whose body is not what it is
the hash of is never asked for again. The map of the misses is what the requests
made so far say, hash by hash.
-/

namespace DawProject.Engine.Fetch

open Backoff

/-- A second of the clock, which counts nanoseconds. -/
def second : ℕ := 10 ^ 9

/-- The pause after some failures. -/
def delay (attempts : ℕ) : ℕ :=
  let shift := min (attempts - 1) 5
  min (2 ^ shift * second) (30 * second)

structure Miss where
  next_retry : ℕ∞
  attempts : ℕ

abbrev Missed : Type := String → Option Miss

structure Response where
  statusCode : ℕ
  body : List UInt8

/-- What a request meets with. -/
structure World where
  response : Option Response
  written : Bool
  renamed : Bool
  /-- The clock at its end. -/
  ended : ℕ

section Fetch

-- The digest in hexadecimal digits.
variable (sha256Hex : List UInt8 → String)

def scheduleRetry (missed : Missed) (hash : String) (prior_attempts : ℕ) (permanent : Bool)
    (now : ℕ) : Missed :=
  Function.update missed hash
    (some { attempts := prior_attempts + 1
            next_retry := if permanent then ⊤ else ↑(now + delay (prior_attempts + 1)) })

/-- A call at the time `now`: the map after it, its result, and how the request went
if there was one. -/
def fetchAssetFromServer (missed : Missed) (server_ws_url hash : String) (now : ℕ)
    (world : World) : Missed × Bool × Option Outcome :=
  if server_ws_url = "" ∨ hash = "" then (missed, false, none)
  else if ∃ miss ∈ missed hash, ↑now < miss.next_retry then (missed, false, none)
  else
    let prior_attempts := (missed hash).elim 0 Miss.attempts
    if !isPathComponentSafe hash then (missed, false, none)
    else
      let failed := scheduleRetry missed hash prior_attempts false world.ended
      match world.response with
      | none => (failed, false, some .failed)
      | some response =>
          if response.statusCode ≠ 200 then (failed, false, some .failed)
          else if hash.utf8ByteSize = 64 ∧ sha256Hex response.body ≠ hash then
            (scheduleRetry missed hash prior_attempts true world.ended, false, some .refused)
          else if !world.written then (failed, false, some .failed)
          else if !world.renamed then (failed, false, some .failed)
          else if prior_attempts > 0 then
            (Function.update missed hash none, true, some .done)
          else (missed, true, some .done)

/-- A session of the engine. `log` has the requests for each hash, the newest first;
no step reads it. -/
structure Session where
  missed : Missed := fun _ => none
  clock : ℕ := 0
  log : String → List Attempt := fun _ => []

/-- The request is put down, if there was one. -/
def Session.call (s : Session) (server_ws_url hash : String) (now : ℕ) (world : World) : Session :=
  let result := fetchAssetFromServer sha256Hex s.missed server_ws_url hash now world
  { missed := result.1
    clock := world.ended
    log :=
      match result.2.2 with
      | none => s.log
      | some outcome => Function.update s.log hash (⟨now, world.ended, outcome⟩ :: s.log hash) }

inductive Step : Session → Session → Prop where
  | call {s : Session} (server_ws_url hash : String) (now : ℕ) (world : World)
      (hnow : s.clock ≤ now) (hended : now ≤ world.ended) :
      Step s (s.call sha256Hex server_ws_url hash now world)

/-- What the requests say of a hash. -/
def missOf (log : List Attempt) : Option Miss :=
  if streak log = 0 then none else some ⟨due delay log, streak log⟩

/-- The map says what the requests say, the requests for a hash wait as long as they
have to, few fail in any time, and none follows one that was refused. -/
structure Session.Patient (s : Session) : Prop where
  missed : ∀ hash, s.missed hash = missOf (s.log hash)
  spaced : ∀ hash, Spaced delay (s.log hash)
  few : ∀ hash after failures before, s.log hash = after ++ failures ++ before →
    (∀ a ∈ failures, a.outcome = .failed) →
    ∀ first ∈ failures.getLast?, ∀ last ∈ failures.head?,
      failures.length ≤ 6 + (last.asked - first.asked) / (30 * second)
  refused : ∀ hash after a before, s.log hash = after ++ a :: before → a.outcome = .refused →
    after = []

section Misses

variable {now ended : ℕ} {log : List Attempt}

theorem due_of_streak (hstreak : streak log = 0) : due delay log = 0 := by
  cases log with
  | nil => rfl
  | cons a log =>
      rw [streak] at hstreak
      split at hstreak
      · rename_i hdone
        simp only [due, hdone]
      · exact absurd hstreak (Nat.succ_ne_zero _)

theorem attempts_missOf : (missOf log).elim 0 Miss.attempts = streak log := by
  unfold missOf
  split
  · rename_i hstreak
    exact hstreak.symm
  · rfl

theorem due_le_of_missOf (hwaits : ¬∃ miss ∈ missOf log, (now : ℕ∞) < miss.next_retry) :
    due delay log ≤ now := by
  by_cases hstreak : streak log = 0
  · rw [due_of_streak hstreak]
    exact zero_le
  · refine not_lt.mp fun hlt => hwaits ⟨⟨due delay log, streak log⟩, ?_, hlt⟩
    rw [missOf, if_neg hstreak]
    rfl

theorem missOf_failed : missOf (⟨now, ended, .failed⟩ :: log) =
    some ⟨↑(ended + delay (streak log + 1)), streak log + 1⟩ := by
  rw [missOf, streak_of_failed rfl, if_neg (Nat.succ_ne_zero _), due_of_failed rfl]

theorem missOf_refused : missOf (⟨now, ended, .refused⟩ :: log) = some ⟨⊤, streak log + 1⟩ := by
  rw [missOf, due_of_refused rfl]
  rfl

theorem missOf_done : missOf (⟨now, ended, .done⟩ :: log) = none := rfl

theorem delay_long {k : ℕ} (hk : 5 < k) : 30 * second ≤ delay k := by
  have hshift : min (k - 1) 5 = 5 := by omega
  rw [delay, hshift]
  decide

end Misses

variable {sha256Hex}

/-- A call makes no request, or it makes one that is due and its miss is put down. -/
theorem fetch_cases {missed : Missed} (server_ws_url : String) {hash : String} (now : ℕ)
    (world : World) {log : List Attempt} (hmissed : missed hash = missOf log) :
    ((fetchAssetFromServer sha256Hex missed server_ws_url hash now world).2.2 = none ∧
        (fetchAssetFromServer sha256Hex missed server_ws_url hash now world).1 = missed) ∨
      ∃ outcome,
        (fetchAssetFromServer sha256Hex missed server_ws_url hash now world).2.2 = some outcome ∧
        due delay log ≤ now ∧
        (fetchAssetFromServer sha256Hex missed server_ws_url hash now world).1 =
          Function.update missed hash (missOf (⟨now, world.ended, outcome⟩ :: log)) := by
  unfold fetchAssetFromServer
  split
  · exact .inl ⟨rfl, rfl⟩
  · split
    · exact .inl ⟨rfl, rfl⟩
    · rename_i hwaits
      rw [hmissed] at hwaits
      have hdue := due_le_of_missOf hwaits
      rw [hmissed, attempts_missOf]
      dsimp only
      split
      · exact .inl ⟨rfl, rfl⟩
      · have hfailed : scheduleRetry missed hash (streak log) false world.ended =
            Function.update missed hash (missOf (⟨now, world.ended, .failed⟩ :: log)) := by
          rw [missOf_failed]
          rfl
        have hrefused : scheduleRetry missed hash (streak log) true world.ended =
            Function.update missed hash (missOf (⟨now, world.ended, .refused⟩ :: log)) := by
          rw [missOf_refused]
          rfl
        rw [hfailed, hrefused]
        split
        · exact .inr ⟨_, rfl, hdue, rfl⟩
        · split
          · exact .inr ⟨_, rfl, hdue, rfl⟩
          · split
            · exact .inr ⟨_, rfl, hdue, rfl⟩
            · split
              · exact .inr ⟨_, rfl, hdue, rfl⟩
              · split
                · exact .inr ⟨_, rfl, hdue, rfl⟩
                · split
                  · exact .inr ⟨_, rfl, hdue, rfl⟩
                  · rename_i hnone
                    refine .inr ⟨_, rfl, hdue, ?_⟩
                    have hfresh : missed hash = none := by
                      rw [hmissed, missOf, if_pos (Nat.eq_zero_of_not_pos hnone)]
                    rw [missOf_done, ← hfresh, Function.update_eq_self]

/-- What holds after every call. -/
structure Inv (s : Session) : Prop where
  missed : ∀ hash, s.missed hash = missOf (s.log hash)
  spaced : ∀ hash, Spaced delay (s.log hash)
  ended : ∀ hash, ∀ a ∈ (s.log hash).head?, a.ended ≤ s.clock

theorem Inv.call {s : Session} (h : Inv s) {server_ws_url hash : String} {now : ℕ} {world : World}
    (hnow : s.clock ≤ now) (hended : now ≤ world.ended) :
    Inv (s.call sha256Hex server_ws_url hash now world) := by
  unfold Session.call
  rcases fetch_cases server_ws_url now world (h.missed hash) with ⟨hnone, hmissed⟩ |
    ⟨outcome, hsome, hdue, hmissed⟩
  · dsimp only
    rw [hnone, hmissed]
    exact ⟨h.missed, h.spaced, fun hash a ha =>
      Nat.le_trans (h.ended hash a ha) (Nat.le_trans hnow hended)⟩
  · dsimp only
    rw [hsome, hmissed]
    refine ⟨fun other => ?_, fun other => ?_, fun other a ha => ?_⟩
    · by_cases hsame : other = hash
      · rw [hsame]
        dsimp only
        rw [Function.update_self, Function.update_self]
      · dsimp only
        rw [Function.update_of_ne hsame, Function.update_of_ne hsame]
        exact h.missed other
    · by_cases hsame : other = hash
      · rw [hsame]
        dsimp only
        rw [Function.update_self]
        exact ⟨hdue, hended, fun b hb => Nat.le_trans (h.ended hash b hb) hnow, h.spaced hash⟩
      · dsimp only
        rw [Function.update_of_ne hsame]
        exact h.spaced other
    · by_cases hsame : other = hash
      · rw [hsame] at ha
        dsimp only at ha
        rw [Function.update_self] at ha
        obtain rfl := Option.some.inj ha
        exact Nat.le_refl _
      · dsimp only at ha
        rw [Function.update_of_ne hsame] at ha
        exact Nat.le_trans (h.ended other a ha) (Nat.le_trans hnow hended)

/-- In every session, whatever the server and the disk answer. -/
theorem patient_of_run {s : Session} (hrun : Run.Reaches (Step sha256Hex) {} s) : s.Patient := by
  have h : Inv s := by
    refine hrun.invariant ⟨fun _ => rfl, fun _ => trivial, fun _ a ha => ?_⟩ ?_
    · exact absurd ha.symm (Option.some_ne_none a)
    · intro a b hstep h
      obtain ⟨server_ws_url, hash, now, world, hnow, hended⟩ := hstep
      exact h.call hnow hended
  refine ⟨h.missed, h.spaced, ?_, ?_⟩
  · intro hash after failures before hlog hfailed first hfirst last hlast
    have hspaced := h.spaced hash
    rw [hlog, List.append_assoc] at hspaced
    obtain ⟨-, hle⟩ := hspaced.of_append.length_le (fun _ => delay_long) hfailed hfirst hlast
    have hpos : 0 < 30 * second := by decide
    have hlength : failures.length ≤
        (last.asked - first.asked + 30 * second * 6) / (30 * second) := by
      rw [Nat.le_div_iff_mul_le hpos, Nat.mul_comm]
      omega
    rw [Nat.add_mul_div_left _ _ hpos] at hlength
    omega
  · intro hash after a before hlog hrefused
    have hspaced := h.spaced hash
    rw [hlog] at hspaced
    exact hspaced.nothing_after hrefused

section Example

/-- The server has the asset a second late. -/
theorem patient_of_run_late : ∃ s : Session, s.Patient ∧
    (s.log "kick").map Attempt.outcome = [.done, .failed] := by
  have hmissed : Run.Reaches (Step fun _ => "") {} _ :=
    Relation.ReflTransGen.single
      (.call "ws://server" "kick" 0 ⟨none, true, true, 0⟩ (Nat.le_refl 0) (Nat.le_refl 0))
  have hfetched := hmissed.tail
    (.call "ws://server" "kick" second ⟨some ⟨200, [1]⟩, true, true, second⟩ (Nat.zero_le _)
      (Nat.le_refl _))
  exact ⟨_, patient_of_run hfetched, by decide +kernel⟩

end Example

end Fetch

end DawProject.Engine.Fetch
