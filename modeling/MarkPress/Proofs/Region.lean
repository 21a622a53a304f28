/-
Module: MarkPress.Proofs.Region
Purpose: What the regions of a pool answer to calls, and what becomes of them.
  A region is three things: a text, attributes, and whether it was rendered. These follow from how
  it began and from the calls to it alone, whatever else happens in the pool. It makes no difference
  whether the text is kept as one piece or as parts that are put together when they are read.
Main exports:
  RegionCall, RegionAnswer, PoolEvent, Keeping, Keeping.getElem?_afterAll, Keeping.Simulates,
  PlainRegion, PlainRegion.since, Keeping.IsPlain, Region.keeping, PartedRegion,
  PartedRegion.keeping, Region.pool_refines
-/
import Mathlib.Data.List.Forall2
import MarkPress.Proofs.Dictionary
import MarkPress.Region

namespace MarkPress

open Html

/-! ### Pools of regions -/

/-- A call to a region. -/
inductive RegionCall where
  | append (text : Text)
  | prepend (text : Text)
  | setAttribute (name : Text) (value : Option Text)
  | inner
  | isEmpty
  | render
deriving Repr, Inhabited, DecidableEq

/-- What a region answers to a call. -/
inductive RegionAnswer where
  | done
  | refused (error : RegionError)
  | text (text : Text)
  | truth (value : Bool)
deriving Repr, Inhabited, DecidableEq

/-- What can happen to a pool: a region is added to it, or the one at a place is called. -/
inductive PoolEvent where
  | create (tag : Tag)
  | call (place : ℕ) (call : RegionCall)
deriving Repr, Inhabited, DecidableEq

/-- A way of keeping regions: how one begins, and what it answers to a call and becomes by it. -/
structure Keeping (σ : Type) where
  create : Tag → σ
  carryOut : σ → RegionCall → RegionAnswer × σ

/-- The tags of the regions that are added. -/
def createdTags (events : List PoolEvent) : List Tag :=
  events.filterMap fun
    | .create tag => some tag
    | .call .. => none

/-- The calls to a place of a pool from when a region is there on, if the pool has some already. -/
def callsTo (place : ℕ) : ℕ → List PoolEvent → List RegionCall
  | _, [] => []
  | count, .create _ :: rest => callsTo place (count + 1) rest
  | count, .call other call :: rest =>
      if other = place ∧ place < count then call :: callsTo place count rest
      else callsTo place count rest

namespace Keeping

variable {σ τ : Type}

/-- The pool behind an event. -/
def after (keeping : Keeping σ) (pool : List σ) : PoolEvent → List σ
  | .create tag => pool ++ [keeping.create tag]
  | .call place call => pool.modify place fun region => (keeping.carryOut region call).2

/-- What a pool answers to an event, if that is a call to one of its regions. -/
def answer? (keeping : Keeping σ) (pool : List σ) : PoolEvent → Option RegionAnswer
  | .create _ => none
  | .call place call => pool[place]?.map fun region => (keeping.carryOut region call).1

def afterAll (keeping : Keeping σ) (pool : List σ) (events : List PoolEvent) : List σ :=
  events.foldl keeping.after pool

/-- The answers to events, one after the other. -/
def answers (keeping : Keeping σ) : List σ → List PoolEvent → List (Option RegionAnswer)
  | _, [] => []
  | pool, event :: rest =>
      keeping.answer? pool event :: keeping.answers (keeping.after pool event) rest

/-- What a region becomes by calls. -/
def become (keeping : Keeping σ) (region : σ) (calls : List RegionCall) : σ :=
  calls.foldl (fun region call => (keeping.carryOut region call).2) region

@[simp] theorem length_after_call (keeping : Keeping σ) (pool : List σ) (place : ℕ)
    (call : RegionCall) : (keeping.after pool (.call place call)).length = pool.length :=
  List.length_modify ..

/-- A call changes the region it is made to and no other one. -/
theorem getElem?_after_call (keeping : Keeping σ) (pool : List σ) (other place : ℕ)
    (call : RegionCall) :
    (keeping.after pool (.call other call))[place]? = pool[place]?.map fun region =>
      if other = place then (keeping.carryOut region call).2 else region := by
  rw [after, List.getElem?_modify]
  cases pool[place]? with
  | none => rfl
  | some region => split <;> rfl

/-- A region is what it began as and what the calls to it made of that. -/
theorem getElem?_afterAll (keeping : Keeping σ) (pool : List σ) (events : List PoolEvent)
    (place : ℕ) :
    (keeping.afterAll pool events)[place]?
      = (pool ++ (createdTags events).map keeping.create)[place]?.map fun first =>
        keeping.become first (callsTo place pool.length events) := by
  induction events generalizing pool with
  | nil => simp [afterAll, createdTags, callsTo, become]
  | cons event rest ih =>
      rw [afterAll, List.foldl_cons, ← afterAll, ih]
      cases event with
      | create tag => simp [after, createdTags, callsTo]
      | call other call =>
          rw [length_after_call, callsTo]
          rcases Nat.lt_or_ge place pool.length with there | beyond
          · rw [List.getElem?_append_left (by simpa using there), getElem?_after_call,
              List.getElem?_append_left there, Option.map_map]
            by_cases here : other = place
            · simp only [here, there, and_self, if_true]
              rfl
            · simp only [here, false_and, if_false]
              rfl
          · rw [List.getElem?_append_right (by simpa using beyond), length_after_call,
              List.getElem?_append_right beyond, if_neg fun both => absurd both.2 (by omega)]
            rfl

/-- Two ways of keeping regions in which related ones answer the same and stay related. -/
structure Simulates (kept : Keeping σ) (other : Keeping τ) (R : σ → τ → Prop) : Prop where
  creates : ∀ tag, R (kept.create tag) (other.create tag)
  answers : ∀ left right call, R left right →
    (kept.carryOut left call).1 = (other.carryOut right call).1
  related : ∀ left right call, R left right →
    R (kept.carryOut left call).2 (other.carryOut right call).2

namespace Simulates

variable {kept : Keeping σ} {other : Keeping τ} {R : σ → τ → Prop}
variable {pool : List σ} {others : List τ}

theorem step (simulates : Simulates kept other R) (related : List.Forall₂ R pool others)
    (event : PoolEvent) :
    kept.answer? pool event = other.answer? others event
      ∧ List.Forall₂ R (kept.after pool event) (other.after others event) := by
  cases event with
  | create tag => exact ⟨rfl, List.rel_append related (.cons (simulates.creates tag) .nil)⟩
  | call place call =>
      induction related generalizing place with
      | nil => exact ⟨rfl, by simp [after]⟩
      | @cons left right pool others first behind ih =>
          cases place with
          | zero =>
              have same := simulates.answers left right call first
              exact ⟨congrArg some same, .cons (simulates.related left right call first) behind⟩
          | succ place =>
              obtain ⟨same, next⟩ := ih place
              exact ⟨same, .cons first next⟩

/-- Related pools answer the same to all events. -/
theorem answers_eq (simulates : Simulates kept other R) (related : List.Forall₂ R pool others)
    (events : List PoolEvent) : kept.answers pool events = other.answers others events := by
  induction events generalizing pool others with
  | nil => rfl
  | cons event rest ih =>
      obtain ⟨answer, next⟩ := simulates.step related event
      rw [Keeping.answers, Keeping.answers, answer, ih next]

end Simulates

end Keeping

/-! ### Plain regions -/

/-- A region as it looks from outside: a text, attributes, and whether it was rendered. -/
structure PlainRegion where
  tag : Tag
  text : Text
  attributes : Attributes
  isSealed : Bool
deriving Repr, Inhabited, DecidableEq

namespace RegionCall

def appended? : RegionCall → Option Text
  | .append text => some text
  | _ => none

def prepended? : RegionCall → Option Text
  | .prepend text => some text
  | _ => none

/-- The attribute that a call sets. The reserved name stays without a value. -/
def setting? : RegionCall → Option (Text × Option Text)
  | .setAttribute name value => if name = Dictionary.reservedKey then none else some (name, value)
  | _ => none

end RegionCall

namespace PlainRegion

/-- The calls that count for the content of a region: those before it is rendered. -/
def heard (first : PlainRegion) (calls : List RegionCall) : List RegionCall :=
  if first.isSealed then [] else calls.takeWhile (· ≠ .render)

/-- A region after calls: in front of its text what was prepended, the latest first, and behind it
what was appended, and its attributes with those that were set. -/
def since (first : PlainRegion) (calls : List RegionCall) : PlainRegion where
  tag := first.tag
  text := ((first.heard calls).filterMap RegionCall.prepended?).reverse.flatten ++ first.text
    ++ ((first.heard calls).filterMap RegionCall.appended?).flatten
  attributes := ((first.heard calls).filterMap RegionCall.setting?).foldl
    (fun attributes pair => attributes.set pair.1 pair.2) first.attributes
  isSealed := first.isSealed || calls.contains .render

/-- A new region of a tag. -/
def ofTag (tag : Tag) : PlainRegion := ⟨tag, [], tag.traits.attributes, false⟩

/-- What a region answers to a call. -/
def answer (region : PlainRegion) (call : RegionCall) : RegionAnswer :=
  match call with
  | .append _ | .prepend _ | .setAttribute .. =>
      if region.isSealed then .refused (.sealed region.tag) else .done
  | .inner => .text region.text
  | .isEmpty => .truth (region.text = [])
  | .render =>
      .text (region.tag.write region.text region.attributes region.tag.traits.shape)

variable {first : PlainRegion} {call : RegionCall} {calls : List RegionCall}

theorem heard_of_sealed (rendered : first.isSealed = true) (calls : List RegionCall) :
    first.heard calls = [] := by
  rw [heard, if_pos rendered]

theorem heard_of_open (unrendered : first.isSealed = false) (calls : List RegionCall) :
    first.heard calls = calls.takeWhile (· ≠ .render) := by
  rw [heard, unrendered]
  rfl

/-- A rendered region stays as it is. -/
theorem since_of_sealed (rendered : first.isSealed = true) (calls : List RegionCall) :
    first.since calls = first := by
  rw [since, heard_of_sealed rendered, rendered, Bool.true_or, ← rendered]
  simp

@[simp] theorem since_nil (first : PlainRegion) : first.since [] = first := by
  have none : first.heard [] = [] := by simp [heard]
  rw [since, none, List.contains_nil, Bool.or_false]
  simp

/-- What one call makes of a region that was not rendered yet. -/
theorem since_one : first.isSealed = false → first.since [call] =
    match call with
    | .append text => { first with text := first.text ++ text }
    | .prepend text => { first with text := text ++ first.text }
    | .setAttribute name value =>
        if name = Dictionary.reservedKey then first
        else { first with attributes := first.attributes.set name value }
    | .inner | .isEmpty => first
    | .render => { first with isSealed := true } := by
  intro unrendered
  obtain ⟨tag, text, attributes, isSealed⟩ := first
  obtain rfl : isSealed = false := unrendered
  cases call with
  | setAttribute name value =>
      by_cases reserved : name = Dictionary.reservedKey <;>
        simp [since, heard, List.filterMap_cons, RegionCall.appended?, RegionCall.prepended?,
          RegionCall.setting?, reserved]
  | append | prepend | inner | isEmpty | render =>
      simp [since, heard, List.filterMap_cons, RegionCall.appended?, RegionCall.prepended?,
        RegionCall.setting?]

theorem isSealed_since (first : PlainRegion) (calls : List RegionCall) :
    (first.since calls).isSealed = (first.isSealed || calls.contains .render) := rfl

theorem heard_cons (first : PlainRegion) (call : RegionCall) (calls : List RegionCall) :
    first.heard (call :: calls) = first.heard [call] ++ (first.since [call]).heard calls := by
  cases rendered : first.isSealed with
  | true => simp only [since_of_sealed rendered, heard_of_sealed rendered, List.append_nil]
  | false =>
      have after := isSealed_since first [call]
      rw [heard_of_open rendered, heard_of_open rendered]
      by_cases renders : call = .render
      · subst renders
        rw [heard_of_sealed (by rw [after]; simp)]
        simp
      · rw [heard_of_open (by rw [after, rendered]; simpa using Ne.symm renders)]
        simp [renders]

/-- What calls make of a region, they make of it one after the other. -/
theorem since_cons (first : PlainRegion) (call : RegionCall) (calls : List RegionCall) :
    first.since (call :: calls) = (first.since [call]).since calls := by
  have same := heard_cons first call calls
  have sealed : (first.isSealed || (call :: calls).contains .render)
      = ((first.since [call]).isSealed || calls.contains .render) := by
    rw [isSealed_since, List.contains_cons, List.contains_cons, List.contains_nil, Bool.or_false,
      Bool.or_assoc]
  rw [since, since.eq_def (first.since [call]), same, sealed]
  simp [since]

end PlainRegion

/-! ### Ways of keeping plain regions -/

/-- A way of keeping regions that are plain ones from outside. -/
structure Keeping.IsPlain {σ : Type} (keeping : Keeping σ) (plain : σ → PlainRegion) : Prop where
  create : ∀ tag, plain (keeping.create tag) = .ofTag tag
  answer : ∀ region call, (keeping.carryOut region call).1 = (plain region).answer call
  since : ∀ region call, plain (keeping.carryOut region call).2 = (plain region).since [call]

namespace Keeping.IsPlain

variable {σ τ : Type} {keeping : Keeping σ} {plain : σ → PlainRegion}

theorem become (isPlain : keeping.IsPlain plain) (region : σ) (calls : List RegionCall) :
    plain (keeping.become region calls) = (plain region).since calls := by
  induction calls generalizing region with
  | nil => exact (plain region).since_nil.symm
  | cons call calls ih =>
      rw [PlainRegion.since_cons, ← isPlain.since, ← ih]
      rfl

/-- From outside each region is what it was at the beginning and what the calls to it say. -/
theorem map_afterAll (isPlain : keeping.IsPlain plain) (pool : List σ) (events : List PoolEvent) :
    (keeping.afterAll pool events).map plain
      = (pool.map plain ++ (createdTags events).map PlainRegion.ofTag).mapIdx fun place first =>
        first.since (callsTo place pool.length events) := by
  have begun : pool.map plain ++ (createdTags events).map PlainRegion.ofTag
      = (pool ++ (createdTags events).map keeping.create).map plain := by
    simp only [List.map_append, List.map_map, Function.comp_def, isPlain.create]
  refine List.ext_getElem? fun place => ?_
  rw [List.getElem?_map, keeping.getElem?_afterAll, begun, List.getElem?_mapIdx, List.getElem?_map,
    Option.map_map, Option.map_map]
  simp only [Function.comp_def, isPlain.become]

/-- Pools that look the same from outside answer the same. -/
theorem answers_eq {other : Keeping τ} {plainly : τ → PlainRegion} (isPlain : keeping.IsPlain plain)
    (isPlainO : other.IsPlain plainly) {pool : List σ} {others : List τ}
    (same : List.Forall₂ (fun left right => plain left = plainly right) pool others)
    (events : List PoolEvent) : keeping.answers pool events = other.answers others events := by
  have simulates : keeping.Simulates other fun left right => plain left = plainly right :=
    { creates := fun tag => by rw [isPlain.create, isPlainO.create]
      answers := fun left right call same => by rw [isPlain.answer, isPlainO.answer, same]
      related := fun left right call same => by rw [isPlain.since, isPlainO.since, same] }
  exact simulates.answers_eq same events

end Keeping.IsPlain

/-! ### Regions -/

namespace Region

/-- A region behind a change, or the region that refuses it. -/
def settle (region : Region) : Except RegionError Region → RegionAnswer × Region
  | .ok after => (.done, after)
  | .error error => (.refused error, region)

/-- What a region answers to a call, and what it becomes by it. -/
def carryOut (region : Region) : RegionCall → RegionAnswer × Region
  | .append text => region.settle (region.append text)
  | .prepend text => region.settle (region.prepend text)
  | .setAttribute name value => region.settle (region.setAttribute name value)
  | .inner => (.text region.inner, region)
  | .isEmpty => (.truth region.isEmpty, region)
  | .render => (.text region.render, region.markSealed)

def keeping : Keeping Region := ⟨ofTag, carryOut⟩

/-- A region as it looks from outside. -/
def plain (region : Region) : PlainRegion :=
  ⟨region.tag, region.inner, region.attributes, region.isSealed⟩

variable {region : Region}

theorem settle_change (region : Region) (f : Region → Region) :
    region.settle (region.change f) =
      if region.isSealed then (.refused (.sealed region.tag), region) else (.done, f region) := by
  rw [change]
  split <;> rfl

/-- A rendered region stays as it is. -/
theorem carryOut_of_sealed (rendered : region.isSealed = true) (call : RegionCall) :
    (region.carryOut call).2 = region := by
  have refused (f : Region → Region) : (region.settle (region.change f)).2 = region := by
    rw [settle_change, if_pos rendered]
  cases call with
  | append | prepend | setAttribute => exact refused _
  | inner | isEmpty => rfl
  | render =>
      obtain ⟨tag, collected, attributes, isSealed⟩ := region
      obtain rfl : isSealed = true := rendered
      rfl

/-- Regions answer as plain ones do. -/
theorem answer_carryOut (region : Region) (call : RegionCall) :
    (region.carryOut call).1 = region.plain.answer call := by
  have change (f : Region → Region) : (region.settle (region.change f)).1
      = if region.isSealed then .refused (.sealed region.tag) else .done := by
    rw [settle_change]
    split <;> rfl
  cases call with
  | append | prepend | setAttribute => exact change _
  | inner | render => rfl
  | isEmpty =>
      rw [carryOut, isEmpty_eq, PlainRegion.answer, plain]
      cases region.inner <;> rfl

/-- Calls make of them what they make of plain ones. -/
theorem plain_carryOut (region : Region) (call : RegionCall) :
    (region.carryOut call).2.plain = region.plain.since [call] := by
  cases rendered : region.isSealed with
  | true =>
      have plainly : region.plain.isSealed = true := rendered
      rw [carryOut_of_sealed rendered, PlainRegion.since_of_sealed plainly]
  | false =>
      have changed (f : Region → Region) : (region.settle (region.change f)).2 = f region := by
        rw [settle_change, rendered]
        rfl
      rw [PlainRegion.since_one rendered]
      cases call with
      | append text =>
          rw [carryOut, append, changed, plain, inner_extend]
          rfl
      | prepend text =>
          rw [carryOut, prepend, changed]
          simp [plain, inner]
      | setAttribute name value =>
          rw [carryOut, setAttribute, changed]
          dsimp only
          split <;> rfl
      | inner | isEmpty | render => rfl

theorem isPlain_keeping : keeping.IsPlain plain := ⟨fun _ => rfl, answer_carryOut, plain_carryOut⟩

end Region

/-! ### Texts in parts -/

/-- A region whose text is kept in the parts that were added to it. -/
structure PartedRegion where
  tag : Tag
  parts : List Text
  attributes : Attributes
  isSealed : Bool
deriving Repr, Inhabited, DecidableEq

namespace PartedRegion

/-- The region with its parts put together, if there are several. -/
def joined (region : PartedRegion) : PartedRegion :=
  if 1 < region.parts.length then { region with parts := [region.parts.flatten] } else region

/-- The first part. -/
def firstPart (region : PartedRegion) : Text := region.parts.head?.getD []

def change (region : PartedRegion) (f : PartedRegion → PartedRegion) :
    RegionAnswer × PartedRegion :=
  if region.isSealed then (.refused (.sealed region.tag), region) else (.done, f region)

/-- What a region answers to a call. No part is empty, and a text that is read is put together. -/
def carryOut (region : PartedRegion) : RegionCall → RegionAnswer × PartedRegion
  | .append text => region.change fun region =>
      if text = [] then region else { region with parts := region.parts ++ [text] }
  | .prepend text => region.change fun region =>
      if text = [] then region else { region with parts := text :: region.parts }
  | .setAttribute name value => region.change fun region =>
      if name = Dictionary.reservedKey then region
      else { region with attributes := region.attributes.set name value }
  | .inner => (.text region.joined.firstPart, region.joined)
  | .isEmpty => (.truth (region.parts.all (· = [])), region)
  | .render =>
      let rendered := { region with isSealed := true }.joined
      (.text (region.tag.write rendered.firstPart region.attributes region.tag.traits.shape),
        rendered)

def keeping : Keeping PartedRegion :=
  ⟨fun tag => ⟨tag, [], tag.traits.attributes, false⟩, carryOut⟩

/-- A region as it looks from outside. -/
def plain (region : PartedRegion) : PlainRegion :=
  ⟨region.tag, region.parts.flatten, region.attributes, region.isSealed⟩

theorem plain_joined (region : PartedRegion) : region.joined.plain = region.plain := by
  rw [joined]
  split
  · simp [plain]
  · rfl

theorem firstPart_joined (region : PartedRegion) :
    region.joined.firstPart = region.parts.flatten := by
  obtain ⟨tag, parts, attributes, isSealed⟩ := region
  rcases parts with _ | ⟨part, _ | ⟨next, parts⟩⟩
  · rfl
  · simp [joined, firstPart]
  · simp [joined, firstPart]

theorem answer_carryOut (region : PartedRegion) (call : RegionCall) :
    (region.carryOut call).1 = region.plain.answer call := by
  have change (f : PartedRegion → PartedRegion) : (region.change f).1
      = if region.isSealed then .refused (.sealed region.tag) else .done := by
    rw [PartedRegion.change]
    split <;> rfl
  cases call with
  | append | prepend | setAttribute => exact change _
  | inner => exact congrArg RegionAnswer.text region.firstPart_joined
  | isEmpty =>
      have same : region.parts.all (· = []) = decide (region.parts.flatten = []) := by
        rw [Bool.eq_iff_iff]
        simp [List.flatten_eq_nil_iff]
      exact congrArg RegionAnswer.truth same
  | render =>
      have text := firstPart_joined { region with isSealed := true }
      rw [carryOut, PlainRegion.answer, text]
      rfl

theorem plain_carryOut (region : PartedRegion) (call : RegionCall) :
    (region.carryOut call).2.plain = region.plain.since [call] := by
  have read : (region.carryOut .inner).2.plain = region.plain := region.plain_joined
  have render : (region.carryOut .render).2.plain = { region.plain with isSealed := true } :=
    plain_joined _
  cases rendered : region.isSealed with
  | true =>
      have refused (f : PartedRegion → PartedRegion) : (region.change f).2 = region := by
        rw [change, if_pos rendered]
      have plainly : region.plain.isSealed = true := rendered
      rw [PlainRegion.since_of_sealed plainly]
      cases call with
      | append | prepend | setAttribute => exact congrArg plain (refused _)
      | inner => exact read
      | isEmpty => rfl
      | render => rw [render, ← plainly]
  | false =>
      have changed (f : PartedRegion → PartedRegion) : (region.change f).2 = f region := by
        rw [change, rendered]
        rfl
      rw [PlainRegion.since_one rendered]
      cases call with
      | append text =>
          rw [carryOut, changed]
          split
          · rename_i empty
            simp [empty]
          · simp [plain]
      | prepend text =>
          rw [carryOut, changed]
          split
          · rename_i empty
            simp [empty]
          · simp [plain]
      | setAttribute name value =>
          rw [carryOut, changed]
          dsimp only
          split <;> rfl
      | inner => exact read
      | isEmpty => rfl
      | render => exact render

theorem isPlain_keeping : keeping.IsPlain plain := ⟨fun _ => rfl, answer_carryOut, plain_carryOut⟩

end PartedRegion

/-! ### The regions of a pool -/

namespace Region

variable {pool : List Region} {place : ℕ} {region : Region}

/-- An event changes no region but the one that it calls. -/
theorem getElem?_after_of_ne (there : pool[place]? = some region) {event : PoolEvent}
    (other : ∀ call, event ≠ .call place call) :
    (keeping.after pool event)[place]? = some region := by
  cases event with
  | create tag =>
      have inside : place < pool.length := (List.getElem?_eq_some_iff.mp there).1
      rw [Keeping.after, List.getElem?_append_left inside, there]
  | call elsewhere call =>
      have differ : elsewhere ≠ place := by
        rintro rfl
        exact other call rfl
      rw [Keeping.getElem?_after_call, there, Option.map_some, if_neg differ]

/-- A call to a rendered region leaves the pool as it is. -/
theorem after_of_sealed (there : pool[place]? = some region) (rendered : region.isSealed = true)
    (call : RegionCall) : keeping.after pool (.call place call) = pool := by
  refine List.ext_getElem? fun other => ?_
  rw [Keeping.getElem?_after_call]
  by_cases same : place = other
  · subst same
    rw [there, Option.map_some, if_pos rfl]
    exact congrArg some (carryOut_of_sealed rendered call)
  · simp only [if_neg same, Option.map_id']

/-- A rendered region stays as it is, whatever happens. -/
theorem getElem?_afterAll_of_sealed (there : pool[place]? = some region)
    (rendered : region.isSealed = true) (events : List PoolEvent) :
    (keeping.afterAll pool events)[place]? = some region := by
  induction events generalizing pool with
  | nil => exact there
  | cons event rest ih =>
      refine ih ?_
      by_cases called : ∃ call, event = .call place call
      · obtain ⟨call, rfl⟩ := called
        rw [after_of_sealed there rendered, there]
      · exact getElem?_after_of_ne there fun call same => called ⟨call, same⟩

/-- Each region of a pool is what it was at the beginning, or a new one of its tag, and behind the
calls to it what these say, however often it is read meanwhile: the text is what was appended and
prepended until it was rendered, and the attributes are as they were set last. It answers as such a
region. What is called on others does not touch it. Once rendered it refuses every change and stays
as it is. Regions that keep their texts in parts answer the same. -/
theorem pool_refines (pool : List Region) (events : List PoolEvent) :
    let now := keeping.afterAll pool events
    now.map plain
        = ((pool.map plain ++ (createdTags events).map PlainRegion.ofTag).mapIdx
          fun place first => first.since (callsTo place pool.length events))
    ∧ (∀ place region, now[place]? = some region →
      (∀ call, keeping.answer? now (.call place call) = some (region.plain.answer call))
      ∧ (∀ event, (∀ call, event ≠ .call place call) →
        (keeping.after now event)[place]? = some region)
      ∧ (region.isSealed = true →
        (∀ call, keeping.after now (.call place call) = now)
        ∧ ∀ later, (keeping.afterAll now later)[place]? = some region))
    ∧ (∀ (first : PlainRegion) calls name, (first.since calls).attributes.get? name
      = ((Dictionary.ofList ((first.heard calls).filterMap RegionCall.setting?)).get? name).or
        (first.attributes.get? name))
    ∧ (∀ parted : List PartedRegion,
      List.Forall₂ (fun left right => left.plain = right.plain) parted pool →
        PartedRegion.keeping.answers parted events = keeping.answers pool events)
    ∧ ∀ tag, (RegionError.sealed tag).message
      = "region ".toList ++ tag.name ++ " is already rendered".toList := by
  intro now
  refine ⟨isPlain_keeping.map_afterAll pool events, fun place region there => ⟨fun call => ?_,
    fun event => getElem?_after_of_ne there, fun rendered => ⟨after_of_sealed there rendered,
      getElem?_afterAll_of_sealed there rendered⟩⟩, fun first calls name =>
    Dictionary.get?_foldl_set _ _ _, fun parted same =>
    PartedRegion.isPlain_keeping.answers_eq isPlain_keeping same events, fun tag => rfl⟩
  rw [Keeping.answer?, there]
  exact congrArg some (answer_carryOut region call)

/-- A region that is read between two changes and rendered next to another one, and then called
again. -/
theorem pool_refines_caption :
    let events : List PoolEvent :=
      [.create .caption, .call 0 (.append ['b']), .call 0 .inner, .create .text,
        .call 0 (.prepend ['a']), .call 1 (.append ['c']), .call 0 .render, .call 0 (.append [])]
    let now := keeping.afterAll [] events
    now.map plain
        = [⟨.caption, "ab".toList, Tag.caption.traits.attributes, true⟩,
          ⟨.text, "c".toList, Tag.text.traits.attributes, false⟩]
      ∧ keeping.answer? now (.call 0 .render)
        = some (.text "<span class=\"caption\">ab</span>".toList)
      ∧ keeping.answer? now (.call 0 (.prepend [])) = some (.refused (.sealed .caption))
      ∧ keeping.after now (.call 0 (.prepend [])) = now
      ∧ PartedRegion.keeping.answers [] events = keeping.answers [] events := by
  intro events now
  obtain ⟨state, each, -, parted, -⟩ := pool_refines [] events
  have there : now[0]? = some (keeping.become (ofTag .caption)
      [.append ['b'], .inner, .prepend ['a'], .render, .append []]) := by
    decide
  obtain ⟨answers, -, stays⟩ := each 0 _ there
  refine ⟨state.trans (by decide), (answers .render).trans (by decide),
    (answers (.prepend [])).trans (by decide), (stays (by decide)).1 (.prepend []),
    parted [] .nil⟩

end Region

end MarkPress
