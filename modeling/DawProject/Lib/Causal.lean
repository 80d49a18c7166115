import Mathlib.Logic.Relation
import Mathlib.Data.List.Basic
import Mathlib.Data.List.Chain
import Mathlib.Data.List.Nodup

/-!
Histories of content-addressed changes. A change is named by its hash, which
fixes the hashes it depends on. A history lists every change once and after
what it depends on, so a list is a history when it extends the empty one.
-/

namespace Causal

variable {H : Type*} (deps : H → List H)

/-- The changes of `r` can be added one after the other to those of `l`. -/
def Extends : List H → List H → Prop
  | _, [] => True
  | l, h :: r => h ∉ l ∧ (∀ d ∈ deps h, d ∈ l) ∧ Extends (l ++ [h]) r

/-- Every change of `r` comes after what it depends on, in `l` or before it in
`r`. A change may come twice. -/
def Ready : List H → List H → Prop
  | _, [] => True
  | l, h :: r => (∀ d ∈ deps h, d ∈ l) ∧ Ready (l ++ [h]) r

/-- Among the changes of the list outside `base`, each change of the list
depends on the one before it and on no other. -/
structure IsLine (base l : List H) : Prop where
  nodup : l.Nodup
  follows : ∀ before c after, l = before ++ c :: after → ∀ a ∈ l, a ∉ base →
    (a ∈ deps c ↔ before.getLast? = some a)

/-- A change that no other change of the list depends on. -/
def IsHead (l : List H) (h : H) : Prop := h ∈ l ∧ ∀ c ∈ l, h ∉ deps c

/-- `a` is `b` or depends on it, directly or not. -/
abbrev DependsOn : H → H → Prop := Relation.ReflTransGen fun a b => b ∈ deps a

variable {deps} {l r base : List H} {h : H}

theorem Extends.notMem (hext : Extends deps l r) : ∀ x ∈ r, x ∉ l := by
  induction r generalizing l with
  | nil =>
      intro x hx
      cases hx
  | cons h r ih =>
      intro x hx
      rcases List.mem_cons.mp hx with rfl | hrest
      · exact hext.1
      · intro hl
        exact ih hext.2.2 x hrest (List.mem_append_left [h] hl)

theorem Extends.deps_mem (hext : Extends deps l r) : ∀ x ∈ r, ∀ d ∈ deps x, d ∈ l ++ r := by
  induction r generalizing l with
  | nil =>
      intro x hx
      cases hx
  | cons h r ih =>
      intro x hx d hd
      rcases List.mem_cons.mp hx with rfl | hrest
      · exact List.mem_append_left _ (hext.2.1 d hd)
      · have htail := ih hext.2.2 x hrest d hd
        rwa [List.append_assoc, List.singleton_append] at htail

theorem Extends.append (hfirst : Extends deps l r) {s : List H}
    (hsecond : Extends deps (l ++ r) s) : Extends deps l (r ++ s) := by
  induction r generalizing l with
  | nil => rwa [List.append_nil] at hsecond
  | cons h r ih =>
      refine ⟨hfirst.1, hfirst.2.1, ih hfirst.2.2 ?_⟩
      rwa [List.append_assoc, List.singleton_append]

/-- The changes of a history that another one lacks extend it. -/
theorem Extends.filter [DecidableEq H] {known : List H} (hext : Extends deps base r)
    (hbase : ∀ x ∈ base, x ∈ l) (hknown : ∀ x ∈ known, x ∈ l)
    (hfresh : ∀ x ∈ r, x ∈ l → x ∈ known) :
    Extends deps l (r.filter fun x => decide (x ∉ known)) := by
  induction r generalizing base l with
  | nil => exact trivial
  | cons h r ih =>
      obtain ⟨hnew, hdeps, hrest⟩ := hext
      by_cases hh : h ∈ known
      · rw [List.filter_cons_of_neg (by simpa using hh)]
        apply ih hrest _ hknown (fun x hx => hfresh x (List.mem_cons_of_mem h hx))
        intro x hx
        rcases List.mem_append.mp hx with hb | hlast
        · exact hbase x hb
        · rw [List.mem_singleton.mp hlast]
          exact hknown h hh
      · rw [List.filter_cons_of_pos (by simpa using hh)]
        have hout : h ∉ l := fun hl => hh (hfresh h List.mem_cons_self hl)
        refine ⟨hout, fun d hd => hbase d (hdeps d hd), ?_⟩
        apply ih hrest
        · intro x hx
          rcases List.mem_append.mp hx with hb | hlast
          · exact List.mem_append_left _ (hbase x hb)
          · exact List.mem_append_right _ hlast
        · intro x hx
          exact List.mem_append_left _ (hknown x hx)
        · intro x hx hl
          rcases List.mem_append.mp hl with hin | hlast
          · exact hfresh x (List.mem_cons_of_mem h hx) hin
          · rw [List.mem_singleton.mp hlast] at hx
            exact absurd (List.mem_append_right base (List.mem_singleton_self h))
              (hrest.notMem h hx)

/-- Every change is reached from a head. -/
theorem Extends.exists_head (hext : Extends deps l r) (hmem : h ∈ r) :
    ∃ t, IsHead deps r t ∧ DependsOn deps t h := by
  induction r generalizing l h with
  | nil => cases hmem
  | cons first r ih =>
      obtain ⟨hnew, hdeps, hrest⟩ := hext
      have hlift : ∀ t, IsHead deps r t → IsHead deps (first :: r) t := by
        intro t ht
        refine ⟨List.mem_cons_of_mem first ht.1, ?_⟩
        intro c hc
        rcases List.mem_cons.mp hc with rfl | hc
        · intro hd
          exact hrest.notMem t ht.1 (List.mem_append_left _ (hdeps t hd))
        · exact ht.2 c hc
      rcases List.mem_cons.mp hmem with rfl | hlater
      · by_cases hused : ∃ c ∈ r, h ∈ deps c
        · obtain ⟨c, hc, hd⟩ := hused
          obtain ⟨t, ht, hreach⟩ := ih hrest hc
          exact ⟨t, hlift t ht, hreach.tail hd⟩
        · refine ⟨h, ⟨List.mem_cons_self, ?_⟩, Relation.ReflTransGen.refl⟩
          intro c hc hd
          rcases List.mem_cons.mp hc with rfl | hc
          · exact hnew (hdeps c hd)
          · exact hused ⟨c, hc, hd⟩
      · obtain ⟨t, ht, hreach⟩ := ih hrest hlater
        exact ⟨t, hlift t ht, hreach⟩

/-- A history holds everything its changes depend on. -/
theorem Extends.mem_of_dependsOn (hext : Extends deps [] l) {t : H} (ht : t ∈ l)
    (hreach : DependsOn deps t h) : h ∈ l := by
  induction hreach with
  | refl => exact ht
  | tail _ hd ih => exact hext.deps_mem _ ih _ hd

/-- A history with a single head is inside every history that holds it. -/
theorem Extends.subset_of_head (hext : Extends deps [] l) {s : H}
    (honly : ∀ t, IsHead deps l t → t = s) (hother : Extends deps [] r) (hs : s ∈ r) :
    ∀ x ∈ l, x ∈ r := by
  intro x hx
  obtain ⟨t, ht, hreach⟩ := hext.exists_head hx
  rw [honly t ht] at hreach
  exact hother.mem_of_dependsOn hs hreach

theorem Extends.nodup (hext : Extends deps l r) : r.Nodup := by
  induction r generalizing l with
  | nil => exact List.nodup_nil
  | cons h r ih =>
      apply List.nodup_cons.mpr
      refine ⟨?_, ih hext.2.2⟩
      intro hr
      exact hext.2.2.notMem h hr (List.mem_append_right l (List.mem_singleton_self h))

theorem Extends.idxOf_lt [DecidableEq H] (hext : Extends deps l r) {d : H} (hmem : h ∈ r)
    (hd : d ∈ deps h) : (l ++ r).idxOf d < (l ++ r).idxOf h := by
  induction r generalizing l with
  | nil => cases hmem
  | cons first r ih =>
      obtain ⟨hnew, hdeps, hrest⟩ := hext
      rcases List.mem_cons.mp hmem with rfl | hlater
      · have hin := hdeps d hd
        rw [List.idxOf_append_of_mem hin, List.idxOf_append_of_notMem hnew]
        exact Nat.lt_of_lt_of_le (List.idxOf_lt_length_iff.mpr hin) (Nat.le_add_right _ _)
      · have htail := ih hrest hlater
        rwa [List.append_assoc, List.singleton_append] at htail

section Ready

variable {l' s : List H}

theorem Ready.mono (hready : Ready deps l r) (hsub : ∀ x ∈ l, x ∈ l') : Ready deps l' r := by
  induction r generalizing l l' with
  | nil => exact trivial
  | cons h r ih =>
      refine ⟨fun d hd => hsub d (hready.1 d hd), ih hready.2 ?_⟩
      intro x hx
      rcases List.mem_append.mp hx with hl | hlast
      · exact List.mem_append_left _ (hsub x hl)
      · exact List.mem_append_right _ hlast

theorem Ready.append (hfirst : Ready deps l r) (hsecond : Ready deps (l ++ r) s) :
    Ready deps l (r ++ s) := by
  induction r generalizing l with
  | nil => rwa [List.append_nil] at hsecond
  | cons h r ih =>
      refine ⟨hfirst.1, ih hfirst.2 ?_⟩
      rwa [List.append_assoc, List.singleton_append]

theorem Ready.left (hready : Ready deps l (r ++ s)) : Ready deps l r := by
  induction r generalizing l with
  | nil => exact trivial
  | cons h r ih => exact ⟨hready.1, ih hready.2⟩

end Ready

section Line

variable {base' : List H}

theorem IsLine.mono (hline : IsLine deps base l) (hsub : ∀ x ∈ base, x ∈ base') :
    IsLine deps base' l := by
  refine ⟨hline.nodup, ?_⟩
  intro before c after hsplit a ha hout
  exact hline.follows before c after hsplit a ha fun hin => hout (hsub a hin)

/-- A change on top of the last one continues the line. -/
theorem IsLine.snoc (hline : IsLine deps base l) {c : H} (hnew : c ∉ l) (hself : c ∉ deps c)
    (hold : ∀ x ∈ l, c ∉ deps x)
    (htop : ∀ a ∈ l, a ∉ base → (a ∈ deps c ↔ l.getLast? = some a)) :
    IsLine deps base (l ++ [c]) := by
  constructor
  · exact List.nodup_append.mpr ⟨hline.nodup, List.nodup_singleton c, by
      intro x hx y hy hxy
      rw [hxy, List.mem_singleton.mp hy] at hx
      exact hnew hx⟩
  · intro before x after hsplit a ha hout
    rcases List.eq_nil_or_concat after with rfl | ⟨after, z, rfl⟩
    · obtain ⟨rfl, hxc⟩ := List.append_inj' hsplit rfl
      obtain rfl : c = x := List.singleton_inj.mp hxc
      rcases List.mem_append.mp ha with hl | hlast
      · exact htop a hl hout
      · obtain rfl := List.mem_singleton.mp hlast
        constructor
        · exact fun hd => absurd hd hself
        · exact fun hlast => absurd (List.mem_of_getLast? hlast) hnew
    · rw [List.concat_eq_append, ← List.cons_append, ← List.append_assoc] at hsplit
      obtain ⟨rfl, hzc⟩ := List.append_inj' hsplit rfl
      rcases List.mem_append.mp ha with hl | hlast
      · exact hline.follows before x after rfl a hl hout
      · obtain rfl := List.mem_singleton.mp hlast
        constructor
        · intro hd
          exact absurd hd (hold x (List.mem_append_right _ List.mem_cons_self))
        · intro hlast
          exact absurd (List.mem_append_left _ (List.mem_of_getLast? hlast)) hnew

/-- What comes after a change outside a closed base is outside it. -/
theorem IsLine.notMem_of_later (hline : IsLine deps base l)
    (hclosed : ∀ c ∈ base, ∀ d ∈ deps c, d ∈ base) {before after : List H} {a : H}
    (hsplit : l = before ++ a :: after) (hout : a ∉ base) : ∀ x ∈ after, x ∉ base := by
  induction after generalizing before a with
  | nil => nofun
  | cons b after ih =>
      have hnext : l = (before ++ [a]) ++ b :: after := by
        rw [hsplit, List.append_assoc, List.singleton_append]
      have ha : a ∈ l := by
        rw [hsplit]
        exact List.mem_append_right _ List.mem_cons_self
      have hdep : a ∈ deps b := by
        apply (hline.follows _ b after hnext a ha hout).mpr
        exact List.getLast?_concat
      have hb : b ∉ base := fun hb => hout (hclosed b hb a hdep)
      intro x hx
      rcases List.mem_cons.mp hx with rfl | hlater
      · exact hb
      · exact ih hnext hb x hlater

/-- The changes outside a closed base are a line by themselves. -/
theorem IsLine.filter [DecidableEq H] (hline : IsLine deps base l)
    (hclosed : ∀ c ∈ base, ∀ d ∈ deps c, d ∈ base) :
    IsLine deps [] (l.filter fun x => decide (x ∉ base)) := by
  refine ⟨hline.nodup.filter _, ?_⟩
  intro before c after hsplit a ha _
  obtain ⟨hal, hout⟩ := List.mem_filter.mp ha
  have hout : a ∉ base := of_decide_eq_true hout
  obtain ⟨first, rest, rfl, rfl, hrest⟩ := List.filter_eq_append_iff.mp hsplit
  obtain ⟨skipped, tail, rfl, hskipped, hc, rfl⟩ := List.filter_eq_cons_iff.mp hrest
  have hfilter : (first.filter fun x => decide (x ∉ base)) =
      (first ++ skipped).filter fun x => decide (x ∉ base) := by
    rw [List.filter_append, List.filter_eq_nil_iff.mpr hskipped, List.append_nil]
  have hwhole : first ++ (skipped ++ c :: tail) = (first ++ skipped) ++ c :: tail :=
    (List.append_assoc _ _ _).symm
  rw [hfilter, hline.follows (first ++ skipped) c tail hwhole a hal hout]
  rw [hwhole] at hline
  -- a last change inside the base has every change before it inside the base
  rcases List.eq_nil_or_concat (first ++ skipped) with hnil | ⟨initial, z, hz⟩
  · rw [hnil]
    exact Iff.rfl
  · rw [hz, List.concat_eq_append, List.filter_append, List.getLast?_concat]
    rw [hz, List.concat_eq_append] at hline
    by_cases hzin : z ∈ base
    · have hnone : (initial.filter fun x => decide (x ∉ base)) = [] := by
        apply List.filter_eq_nil_iff.mpr
        intro x hx hxout
        obtain ⟨u, v, rfl⟩ := List.append_of_mem hx
        have hpast : u ++ x :: v ++ [z] ++ c :: tail = u ++ x :: (v ++ z :: c :: tail) := by simp
        apply hline.notMem_of_later hclosed hpast (of_decide_eq_true hxout) z _ hzin
        exact List.mem_append_right v List.mem_cons_self
      rw [hnone, List.filter_cons_of_neg (by simpa using hzin)]
      constructor
      · intro heq
        rw [Option.some.inj heq] at hzin
        exact absurd hzin hout
      · nofun
    · rw [List.filter_cons_of_pos (by simpa using hzin), List.filter_nil, List.getLast?_concat]

/-- A line can be added to what its changes depend on otherwise. -/
theorem IsLine.ready (hline : IsLine deps [] l)
    (hdeps : ∀ c ∈ l, ∀ d ∈ deps c, d ∈ base ∨ d ∈ l) : Ready deps base l := by
  suffices hrest : ∀ rest before, l = before ++ rest → Ready deps (base ++ before) rest by
    have hall := hrest l [] rfl
    rwa [List.append_nil] at hall
  intro rest
  induction rest with
  | nil =>
      intro before _
      exact trivial
  | cons c rest ih =>
      intro before hsplit
      constructor
      · intro d hd
        have hc : c ∈ l := by
          rw [hsplit]
          exact List.mem_append_right _ List.mem_cons_self
        rcases hdeps c hc d hd with hbase | hl
        · exact List.mem_append_left _ hbase
        · have hlast := (hline.follows before c rest hsplit d hl List.not_mem_nil).mp hd
          exact List.mem_append_right _ (List.mem_of_getLast? hlast)
      · rw [List.append_assoc]
        apply ih
        rw [hsplit, List.append_assoc, List.singleton_append]

theorem IsLine.isChain (hline : IsLine deps [] l) : l.IsChain fun a b => a ∈ deps b := by
  apply List.isChain_iff_getElem.mpr
  intro i hi
  have hsplit : l = l.take (i + 1) ++ l[i + 1] :: l.drop (i + 2) := by
    rw [List.getElem_cons_drop, List.take_append_drop]
  apply (hline.follows _ _ _ hsplit _ (List.getElem_mem _) List.not_mem_nil).mpr
  rw [List.getLast?_take, if_neg (Nat.succ_ne_zero i)]
  simp [List.getElem?_eq_getElem (show i < l.length by omega)]

/-- Only one list of the changes of a history is a line. -/
theorem IsLine.eq_filter [DecidableEq H] (hline : IsLine deps [] l)
    (hext : Extends deps [] base) {keep : H → Bool}
    (hmem : ∀ x, x ∈ l ↔ x ∈ base ∧ keep x = true) : base.filter keep = l := by
  have hbase : base.Pairwise fun a b => base.idxOf a < base.idxOf b := by
    apply List.pairwise_iff_getElem.mpr
    intro i j hi hj hij
    rw [hext.nodup.idxOf_getElem, hext.nodup.idxOf_getElem]
    exact hij
  have hl : l.Pairwise fun a b => base.idxOf a < base.idxOf b := by
    have hchain : l.IsChain fun a b => base.idxOf a < base.idxOf b := by
      apply hline.isChain.imp_of_mem_imp
      intro a b _ hb hd
      exact hext.idxOf_lt ((hmem b).mp hb).1 hd
    have htrans : Trans (fun a b : H => base.idxOf a < base.idxOf b)
        (fun a b : H => base.idxOf a < base.idxOf b)
        (fun a b : H => base.idxOf a < base.idxOf b) := ⟨Nat.lt_trans⟩
    exact hchain.pairwise
  apply List.Perm.eq_of_pairwise _ (hbase.filter keep) hl
  · apply (List.perm_ext_iff_of_nodup (hext.nodup.filter keep) hline.nodup).mpr
    intro x
    rw [hmem x, List.mem_filter]
  · intro a b _ _ hab hba
    exact absurd (Nat.lt_trans hab hba) (Nat.lt_irrefl _)

end Line

end Causal
