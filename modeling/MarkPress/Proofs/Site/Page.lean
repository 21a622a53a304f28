/-
Module: MarkPress.Proofs.Site.Page
Purpose: The order of the pages of a site.
  A page has a place in a linear order: the later its date the earlier, behind all dates if it has
  none, and within one date by the units of its source. Pages compare as their places do, so pages
  with different sources have one order only.
Main exports:
  Date.compare_sign, Page.place, Page.compare_compares, Page.sort_pairwise, Page.sort_order
-/
import Mathlib.Data.List.Nodup
import Mathlib.Data.Prod.Lex
import Mathlib.Order.WithBot
import MarkPress.Proofs.Text.Order
import MarkPress.Site.Page

namespace MarkPress

open OrderDual

/-! ### Dates -/

namespace Date

/-- The first difference of two lists of one length has the sign of their order. -/
theorem firstDifference_sign {left right : List ℕ} (long : left.length = right.length) :
    (firstDifference left right < 0 ↔ left < right)
      ∧ (0 < firstDifference left right ↔ right < left) := by
  induction left generalizing right with
  | nil =>
      cases right with
      | nil => simp [firstDifference]
      | cons b right => simp at long
  | cons a left ih =>
      cases right with
      | nil => simp at long
      | cons b right =>
          rw [firstDifference, List.cons_lt_cons_iff, List.cons_lt_cons_iff]
          by_cases same : a = b
          · subst same
            simpa using ih (Nat.succ.inj long)
          · rw [if_neg same]
            simp only [same, Ne.symm same, false_and, or_false]
            omega

theorem compare_sign (left right : Date) :
    (firstDifference left.sortKey right.sortKey < 0 ↔ left.sortKey < right.sortKey)
      ∧ (0 < firstDifference left.sortKey right.sortKey ↔ right.sortKey < left.sortKey) :=
  firstDifference_sign rfl

/-- The place of a date among dates from the latest to the earliest. What has no date comes last. -/
def place : Option Date → WithTop (List ℕ)ᵒᵈ
  | some date => WithTop.some (toDual date.sortKey)
  | none => ⊤

end Date

namespace Page

/-- The place of a page: by its date, and within one date by its source. -/
def place (page : Page) : WithTop (List ℕ)ᵒᵈ ×ₗ List ℕ :=
  toLex (Date.place page.date, page.source.codeUnits)

variable {left right : Page}

theorem place_lt_of_date (earlier : Date.place left.date < Date.place right.date) :
    left.place < right.place :=
  Prod.Lex.toLex_lt_toLex.mpr (.inl earlier)

/-- Pages with one place among the dates compare as their sources do. -/
theorem compares_sources (same : Date.place left.date = Date.place right.date) :
    (Text.compare left.source right.source).Compares left.place right.place := by
  have sources := Text.compare_compares left.source right.source
  cases order : Text.compare left.source right.source with
  | lt =>
      rw [order] at sources
      exact Prod.Lex.toLex_lt_toLex.mpr (.inr ⟨same, sources⟩)
  | eq =>
      rw [order] at sources
      exact congrArg toLex (Prod.ext same sources)
  | gt =>
      rw [order] at sources
      exact Prod.Lex.toLex_lt_toLex.mpr (.inr ⟨same.symm, sources⟩)

/-- Pages compare as their places do. -/
theorem compare_compares (left right : Page) :
    (compare left right).Compares left.place right.place := by
  cases dateL : left.date with
  | none =>
      cases dateR : right.date with
      | none =>
          have level : Date.place left.date = Date.place right.date := by rw [dateL, dateR]
          simpa [compare, dateL, dateR, Date.compare] using compares_sources level
      | some dated =>
          have behind : right.place < left.place :=
            place_lt_of_date (by simp [dateL, dateR, Date.place])
          simpa [compare, dateL, dateR] using behind
  | some later =>
      cases dateR : right.date with
      | none =>
          have before : left.place < right.place :=
            place_lt_of_date (by simp [dateL, dateR, Date.place])
          simpa [compare, dateL, dateR] using before
      | some dated =>
          have sign := Date.compare_sign dated later
          rcases lt_trichotomy dated.sortKey later.sortKey with newer | same | older
          · have before : left.place < right.place :=
              place_lt_of_date (by simpa [dateL, dateR, Date.place] using newer)
            simpa [compare, dateL, dateR, Date.compare, sign.1.mpr newer] using before
          · have noDifference : Date.firstDifference dated.sortKey later.sortKey = 0 :=
              le_antisymm (not_lt.mp (sign.2.not.mpr same.not_gt))
                (not_lt.mp (sign.1.not.mpr same.not_lt))
            have level : Date.place left.date = Date.place right.date := by
              rw [dateL, dateR, Date.place, Date.place, same]
            simpa [compare, dateL, dateR, Date.compare, noDifference] using compares_sources level
          · have behind : right.place < left.place :=
              place_lt_of_date (by simpa [dateL, dateR, Date.place] using older)
            have positive := sign.2.mpr older
            simpa [compare, dateL, dateR, Date.compare, positive, positive.le.not_gt] using behind

/-! ### What the order is -/

/-- Exchanging two pages exchanges lesser and greater. -/
theorem compare_swap (left right : Page) : compare right left = (compare left right).swap :=
  (compare_compares right left).inj (compare_compares left right).swap

/-- A page that is not greater has a place that is not behind. -/
theorem compare_ne_gt_iff : compare left right ≠ .gt ↔ left.place ≤ right.place :=
  (compare_compares left right).ne_gt

theorem compare_trans {middle : Page} (first : compare left middle ≠ .gt)
    (second : compare middle right ≠ .gt) : compare left right ≠ .gt := by
  rw [compare_ne_gt_iff] at first second ⊢
  exact first.trans second

theorem datePlace_inj {left right : Option Date} :
    Date.place left = Date.place right ↔ left.map Date.sortKey = right.map Date.sortKey := by
  cases left <;> cases right <;> simp [Date.place]

/-- Pages are level if they have one source and one date, or one source and no date. -/
theorem compare_eq_iff : compare left right = .eq ↔
    left.source = right.source ∧ left.date.map Date.sortKey = right.date.map Date.sortKey := by
  rw [(compare_compares left right).eq_eq, place, place, toLex_inj, Prod.mk.injEq,
    datePlace_inj, Text.codeUnits_injective.eq_iff, and_comm]

theorem compare_lt_of_date (earlier : Date.place left.date < Date.place right.date) :
    compare left right = .lt :=
  (compare_compares left right).eq_lt.mpr (place_lt_of_date earlier)

/-- Among pages of one date, and among pages without a date, the order of the sources decides. -/
theorem compare_lt_iff_of_date (same : left.date.map Date.sortKey = right.date.map Date.sortKey) :
    compare left right = .lt ↔ left.source.codeUnits < right.source.codeUnits := by
  have level := datePlace_inj.mpr same
  have sources := Text.compare_compares left.source right.source
  rw [(compare_compares left right).inj (compares_sources level), sources.eq_lt]

/-! ### Sorting -/

theorem sort_perm (pages : List Page) : (sort pages).Perm pages := List.mergeSort_perm _ _

/-- No page of a sorted list is greater than one behind it. -/
theorem sort_pairwise (pages : List Page) :
    (sort pages).Pairwise fun left right => compare left right ≠ .gt := by
  have sorted : (sort pages).Pairwise fun left right => (compare left right != .gt) = true := by
    apply List.pairwise_mergeSort
    · intro left middle right first second
      rw [bne_iff_ne] at first second ⊢
      exact compare_trans first second
    · intro left right
      rw [Bool.or_eq_true, bne_iff_ne, bne_iff_ne, compare_ne_gt_iff, compare_ne_gt_iff]
      exact le_total _ _
  exact sorted.imp fun kept => bne_iff_ne.mp kept

/-- Pages with different sources have one order only. -/
theorem sort_eq_of_perm {pages others : List Page} (same : pages.Perm others)
    (distinct : (pages.map source).Nodup) : sort pages = sort others := by
  have shuffled : (sort pages).Perm (sort others) :=
    (sort_perm pages).trans (same.trans (sort_perm others).symm)
  refine List.Perm.eq_of_pairwise ?_ (sort_pairwise pages) (sort_pairwise others) shuffled
  intro left right memberL memberR before behind
  rw [compare_ne_gt_iff] at before behind
  have level : compare left right = .eq :=
    (compare_compares left right).eq_eq.mpr (le_antisymm before behind)
  have inL : left ∈ pages := (sort_perm pages).mem_iff.mp memberL
  have inR : right ∈ pages := same.mem_iff.mpr ((sort_perm others).mem_iff.mp memberR)
  exact List.inj_on_of_nodup_map distinct inL inR (compare_eq_iff.mp level).1

/-- Pages compare by a total preorder: those with a date come first, the latest at the front, and
where the dates do not decide the sources do, in the order of their 16-bit units. Sorting puts the
same pages in this order, and pages with different sources end in one order wherever they started.
-/
theorem sort_order :
    (∀ left right, compare right left = (compare left right).swap)
    ∧ (∀ left middle right, compare left middle ≠ .gt → compare middle right ≠ .gt →
        compare left right ≠ .gt)
    ∧ (∀ left right, compare left right = .eq ↔
        left.source = right.source ∧ left.date.map Date.sortKey = right.date.map Date.sortKey)
    ∧ (∀ dated undated date, dated.date = some date → undated.date = none →
        compare dated undated = .lt)
    ∧ (∀ newer older later earlier, newer.date = some later → older.date = some earlier →
        earlier.sortKey < later.sortKey → compare newer older = .lt)
    ∧ (∀ left right, left.date.map Date.sortKey = right.date.map Date.sortKey →
        (compare left right = .lt ↔ left.source.codeUnits < right.source.codeUnits))
    ∧ (∀ pages, (sort pages).Perm pages
        ∧ (sort pages).Pairwise fun left right => compare left right ≠ .gt)
    ∧ ∀ pages others, pages.Perm others → (pages.map source).Nodup →
        sort pages = sort others := by
  refine ⟨compare_swap, fun _ _ _ => compare_trans, fun _ _ => compare_eq_iff, ?_, ?_,
    fun _ _ => compare_lt_iff_of_date, fun pages => ⟨sort_perm pages, sort_pairwise pages⟩,
    fun _ _ => sort_eq_of_perm⟩
  · intro dated undated date isDated isUndated
    exact compare_lt_of_date (by simp [isDated, isUndated, Date.place])
  · intro newer older later earlier dateN dateO before
    exact compare_lt_of_date (by simpa [dateN, dateO, Date.place] using before)

end Page

end MarkPress
