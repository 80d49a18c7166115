import Mathlib.Data.List.Basic
import Mathlib.Tactic.Common

/-!
What a synthesiser holds after a stream of note events. A voice is a key and
the tag it was started with; a note-on starts a voice and a note-off ends
every voice of its key. A voice that is still held is one whose note-on has
not been followed by a note-off.
-/

namespace Voices

inductive Event (κ τ : Type*) where
  | on (key : κ) (tag : τ)
  | off (key : κ)
deriving DecidableEq

variable {κ τ : Type*} [DecidableEq κ]

def feed (held : List (κ × τ)) : Event κ τ → List (κ × τ)
  | .on key tag => (key, tag) :: held
  | .off key => held.filter (fun voice => decide (voice.1 ≠ key))

/-- The voices held after a stream of events. -/
def play (held : List (κ × τ)) (events : List (Event κ τ)) : List (κ × τ) :=
  events.foldl feed held

@[simp] theorem play_nil (held : List (κ × τ)) : play held [] = held := rfl

@[simp] theorem play_cons (held : List (κ × τ)) (e : Event κ τ) (events : List (Event κ τ)) :
    play held (e :: events) = play (feed held e) events := rfl

@[simp] theorem play_append (held : List (κ × τ)) (first later : List (Event κ τ)) :
    play held (first ++ later) = play (play held first) later :=
  List.foldl_append

/-- A voice is held after one event exactly when that event started it, or
when it was held before and the event is not its note-off. -/
theorem mem_feed {held : List (κ × τ)} {e : Event κ τ} {voice : κ × τ} :
    voice ∈ feed held e ↔
      e = .on voice.1 voice.2 ∨ (voice ∈ held ∧ e ≠ .off voice.1) := by
  cases e with
  | on key tag =>
      obtain ⟨key', tag'⟩ := voice
      simp only [feed, List.mem_cons, Prod.mk.injEq, Event.on.injEq]
      constructor
      · rintro (⟨rfl, rfl⟩ | hheld)
        · exact Or.inl ⟨rfl, rfl⟩
        · exact Or.inr ⟨hheld, by simp⟩
      · rintro (⟨rfl, rfl⟩ | hheld)
        · exact Or.inl ⟨rfl, rfl⟩
        · exact Or.inr hheld.1
  | off key =>
      simp only [feed, List.mem_filter, decide_eq_true_eq, reduceCtorEq, false_or]
      constructor
      · intro hheld
        exact ⟨hheld.1, fun heq => hheld.2 (Event.off.inj heq).symm⟩
      · intro hheld
        exact ⟨hheld.1, fun heq => hheld.2 (congrArg Event.off heq.symm)⟩

/-- A held voice was held from the start and met no note-off, or was started
in the stream and met no note-off after that. -/
theorem of_mem_play {held : List (κ × τ)} {events : List (Event κ τ)} {voice : κ × τ}
    (hvoice : voice ∈ play held events) :
    (voice ∈ held ∧ .off voice.1 ∉ events) ∨
      ∃ before after, events = before ++ .on voice.1 voice.2 :: after ∧
        .off voice.1 ∉ after := by
  induction events generalizing held with
  | nil => exact Or.inl ⟨hvoice, List.not_mem_nil⟩
  | cons e events ih =>
      rcases ih hvoice with ⟨hheld, hquiet⟩ | ⟨before, after, hsplit, hquiet⟩
      · rcases mem_feed.mp hheld with hstart | ⟨hold, hne⟩
        · exact Or.inr ⟨[], events, by rw [hstart]; rfl, hquiet⟩
        · refine Or.inl ⟨hold, ?_⟩
          intro hmem
          rcases List.mem_cons.mp hmem with heq | htail
          · exact hne heq.symm
          · exact hquiet htail
      · exact Or.inr ⟨e :: before, after, by rw [hsplit]; rfl, hquiet⟩

section Settles

variable {Q : κ × τ → Prop}

/-- Every voice a stream starts is allowed to sound on after it, or meets its
note-off in it. -/
def Settles (Q : κ × τ → Prop) (events : List (Event κ τ)) : Prop :=
  ∀ before key tag after, events = before ++ .on key tag :: after →
    Q (key, tag) ∨ .off key ∈ after

omit [DecidableEq κ] in
theorem settles_nil : Settles Q ([] : List (Event κ τ)) := by
  intro before key tag after hsplit
  cases before <;> cases hsplit

omit [DecidableEq κ] in
theorem settles_of_on {events : List (Event κ τ)}
    (hon : ∀ key tag, .on key tag ∈ events → Q (key, tag)) : Settles Q events := by
  intro before key tag after hsplit
  left
  apply hon
  rw [hsplit]
  simp

omit [DecidableEq κ] in
theorem Settles.append {first later : List (Event κ τ)} (hfirst : Settles Q first)
    (hlater : Settles Q later) : Settles Q (first ++ later) := by
  intro before key tag after hsplit
  rcases List.append_eq_append_iff.mp hsplit with ⟨mid, hbefore, hrest⟩ | ⟨mid, hstart, hrest⟩
  · exact hlater mid key tag after hrest
  · cases mid with
    | nil => exact hlater [] key tag after hrest.symm
    | cons e mid =>
        simp only [List.cons_append, List.cons.injEq] at hrest
        obtain ⟨rfl, rfl⟩ := hrest
        rcases hfirst before key tag mid hstart with hallowed | hoff
        · exact Or.inl hallowed
        · exact Or.inr (List.mem_append_left _ hoff)

omit [DecidableEq κ] in
theorem settles_flatMap {α : Type*} {items : List α} {f : α → List (Event κ τ)}
    (hitem : ∀ a ∈ items, Settles Q (f a)) : Settles Q (items.flatMap f) := by
  induction items with
  | nil => exact settles_nil
  | cons a items ih =>
      rw [List.flatMap_cons]
      apply Settles.append (hitem a List.mem_cons_self)
      exact ih (fun b hb => hitem b (List.mem_cons_of_mem _ hb))

/-- After a stream that settles, a held voice was held before and met no
note-off, or is allowed to sound. -/
theorem Settles.of_mem_play {held : List (κ × τ)} {events : List (Event κ τ)} {voice : κ × τ}
    (hsettles : Settles Q events) (hvoice : voice ∈ play held events) :
    (voice ∈ held ∧ .off voice.1 ∉ events) ∨ Q voice := by
  rcases Voices.of_mem_play hvoice with hold | ⟨before, after, hsplit, hquiet⟩
  · exact Or.inl hold
  · rcases hsettles before voice.1 voice.2 after hsplit with hallowed | hoff
    · exact Or.inr hallowed
    · exact absurd hoff hquiet

end Settles

end Voices
