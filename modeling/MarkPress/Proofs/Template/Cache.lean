/-
Module: MarkPress.Proofs.Template.Cache
Purpose: Templates that are loaded while their files change.
  A session is a folder of templates and its cache while files are written and removed, the cache is
  cleared, and templates are asked for. What the cache holds under a name is the text that the file
  had at the first call for the name that succeeded since the cache was cleared last. Each event
  keeps it so, and a run of events does by induction on its last one.
Main exports:
  IsTemplateName, TemplateEvent, TemplateSession, TemplateSession.run, TemplateSession.Loads,
  TemplateSession.FirstLoad, TemplateSession.Remembers, TemplateSession.remembers_run,
  TemplateSession.load_run
-/
import Mathlib.Data.List.Induction
import MarkPress.Proofs.Path
import MarkPress.Template.Cache

namespace MarkPress

/-! ### Names of templates -/

/-- A name of letters, digits, underscores and hyphens, with one of them at least. -/
def IsTemplateName (name : Text) : Prop :=
  name ≠ [] ∧ ∀ c ∈ name,
    ('A' ≤ c ∧ c ≤ 'Z') ∨ ('a' ≤ c ∧ c ≤ 'z') ∨ ('0' ≤ c ∧ c ≤ '9') ∨ c = '_' ∨ c = '-'

theorem Template.isNameChar_iff {c : Char} :
    isNameChar c = true ↔
      ('A' ≤ c ∧ c ≤ 'Z') ∨ ('a' ≤ c ∧ c ≤ 'z') ∨ ('0' ≤ c ∧ c ≤ '9') ∨ c = '_' ∨ c = '-' := by
  have ranges : c.isAlphanum = (decide ('A' ≤ c ∧ c ≤ 'Z')
      || (decide ('a' ≤ c) && decide (c ≤ 'z')) || (decide ('0' ≤ c) && decide (c ≤ '9'))) := rfl
  simp only [isNameChar, ranges, Bool.or_eq_true, Bool.and_eq_true, decide_eq_true_eq, beq_iff_eq,
    or_assoc]

namespace TemplateCache

variable {cache : TemplateCache} {files other : Files} {name : Text}

theorem isValidName_iff : isValidName name = true ↔ IsTemplateName name := by
  simp only [isValidName, IsTemplateName, Bool.and_eq_true, Bool.not_eq_true',
    List.isEmpty_eq_false_iff, List.all_eq_true, Template.isNameChar_iff, ne_eq]

/-- The file of a template has a name of its own, so that it stands in the folder itself. -/
theorem areNames_file (valid : IsTemplateName name) :
    Path.AreNames [name ++ ".html".toList] where
  some := List.cons_ne_nil _ _
  each file member := by
    obtain rfl := List.mem_singleton.mp member
    exact Path.isName_append name (by decide)
  free file member := by
    obtain rfl := List.mem_singleton.mp member
    intro slash
    rcases List.mem_append.mp slash with inName | inEnding
    · exact absurd (valid.2 '/' inName) (by decide)
    · exact absurd inEnding (by decide)

theorem parts_pathOf (cache : TemplateCache) (valid : IsTemplateName name) :
    Path.parts (cache.pathOf name) = Path.parts cache.folder ++ [name ++ ".html".toList] := by
  have joined := Path.parts_join_names cache.folder (areNames_file valid)
  rwa [Text.join] at joined

/-! ### One call -/

theorem load_cached {text : Text} (cached : cache.texts.get? name = some text) :
    cache.load files name = .ok (text, cache) := by
  rw [load, cached]

theorem load_invalid (fresh : cache.texts.get? name = none) (invalid : ¬ IsTemplateName name) :
    cache.load files name = .error (.invalidName name) := by
  rw [load, fresh]
  exact if_neg fun valid => invalid (isValidName_iff.mp valid)

theorem load_fresh (fresh : cache.texts.get? name = none) (valid : IsTemplateName name) :
    cache.load files name =
      match files.get? (cache.pathOf name) with
      | some text => .ok (text, { cache with texts := cache.texts.set name text })
      | none => .error (.notFound (cache.pathOf name)) := by
  rw [load, fresh]
  exact if_pos (isValidName_iff.mpr valid)

/-- A call that succeeds answers with what is held, or with the file of a name, which it keeps. -/
theorem load_eq_ok_iff {text : Text} {kept : TemplateCache} :
    cache.load files name = .ok (text, kept) ↔
      (cache.texts.get? name = some text ∧ kept = cache)
      ∨ (cache.texts.get? name = none ∧ IsTemplateName name
        ∧ files.get? (cache.pathOf name) = some text
        ∧ kept = { cache with texts := cache.texts.set name text }) := by
  cases cached : cache.texts.get? name with
  | some held => simp [load_cached cached, eq_comm]
  | none =>
      by_cases valid : IsTemplateName name
      · rw [load_fresh cached valid]
        cases files.get? (cache.pathOf name) with
        | none => simp
        | some found =>
            simp only [Except.ok.injEq, Prod.mk.injEq, reduceCtorEq, false_and, true_and,
              false_or, Option.some.injEq, valid]
            constructor
            · rintro ⟨rfl, rfl⟩
              exact ⟨rfl, rfl⟩
            · rintro ⟨rfl, rfl⟩
              exact ⟨rfl, rfl⟩
      · simp [load_invalid cached valid, valid]

/-- A call for a name that fails finds nothing held and no file. -/
theorem load_eq_error {error : TemplateError} (valid : IsTemplateName name)
    (failed : cache.load files name = .error error) :
    cache.texts.get? name = none ∧ error = .notFound (cache.pathOf name) := by
  cases cached : cache.texts.get? name with
  | some text =>
      rw [load_cached cached] at failed
      cases failed
  | none =>
      rw [load_fresh cached valid] at failed
      cases file : files.get? (cache.pathOf name) with
      | some text =>
          rw [file] at failed
          cases failed
      | none =>
          rw [file] at failed
          exact ⟨rfl, (Except.error.inj failed).symm⟩

/-- A call looks at one file only, the one of the name it asks for. -/
theorem load_congr (same : files.get? (cache.pathOf name) = other.get? (cache.pathOf name)) :
    cache.load files name = cache.load other name := by
  simp only [load, same]

theorem fillPage_eq (values : Variables) :
    cache.fillPage files name values =
      (cache.load files name).map fun (template, kept) => (Template.fill template values, kept) := by
  rw [fillPage]
  cases cache.load files name <;> rfl

end TemplateCache

/-! ### Sessions -/

/-- What can happen to templates: their files change, the cache is cleared, or one is asked for. -/
inductive TemplateEvent where
  | write (path text : Text)
  | remove (path : Text)
  | clear
  | load (name : Text)
  | fillPage (name : Text) (values : Variables)

/-- The name that a call asks for. -/
def TemplateEvent.asked? : TemplateEvent → Option Text
  | .load name => some name
  | .fillPage name _ => some name
  | .write .. | .remove .. | .clear => none

/-- Files and the templates of a folder that have been loaded from them. -/
structure TemplateSession where
  files : Files
  cache : TemplateCache

namespace TemplateSession

/-- A session in which nothing has been loaded. -/
def opened (files : Files) (folder : Text) : TemplateSession := ⟨files, { folder := folder }⟩

/-- What the session answers to a call. -/
def answer? (session : TemplateSession) :
    TemplateEvent → Option (Except TemplateError (Text × TemplateCache))
  | .load name => some (session.cache.load session.files name)
  | .fillPage name values => some (session.cache.fillPage session.files name values)
  | .write .. | .remove .. | .clear => none

/-- The session with the cache that an answer leaves. A failure leaves the cache as it was. -/
def keep (session : TemplateSession) :
    Except TemplateError (Text × TemplateCache) → TemplateSession
  | .ok (_, cache) => { session with cache := cache }
  | .error _ => session

/-- The session after an event. -/
def after (session : TemplateSession) : TemplateEvent → TemplateSession
  | .write path text => { session with files := session.files.write path text }
  | .remove path => { session with files := session.files.remove path }
  | .clear => { session with cache := session.cache.clear }
  | .load name => session.keep (session.cache.load session.files name)
  | .fillPage name values => session.keep (session.cache.fillPage session.files name values)

/-- The session after a list of events. -/
def run (session : TemplateSession) (events : List TemplateEvent) : TemplateSession :=
  events.foldl after session

/-- The call behind the events `before` asks for a name and succeeds, and the cache is not cleared
any more. -/
def Loads (start : TemplateSession) (name : Text) (events before : List TemplateEvent) : Prop :=
  ∃ call later, events = before ++ call :: later ∧ call.asked? = some name
    ∧ (∃ result, (start.run before).answer? call = some (.ok result))
    ∧ TemplateEvent.clear ∉ later

/-- The call behind the events `before` is the first of those. -/
structure FirstLoad (start : TemplateSession) (name : Text) (events before : List TemplateEvent) :
    Prop where
  loads : Loads start name events before
  least : ∀ other, Loads start name events other → before.length ≤ other.length

variable {start session : TemplateSession} {name folder : Text} {event : TemplateEvent}
variable {events before : List TemplateEvent} {files : Files}

/-! ### Calls -/

theorem run_concat (start : TemplateSession) (events : List TemplateEvent)
    (event : TemplateEvent) : start.run (events ++ [event]) = (start.run events).after event := by
  rw [run, List.foldl_append]
  rfl

/-- Filling a page loads a template as asking for it does. -/
theorem after_of_asked (asked : event.asked? = some name) :
    session.after event = session.keep (session.cache.load session.files name) := by
  cases event with
  | load other =>
      obtain rfl := Option.some.inj asked
      rfl
  | fillPage other values =>
      obtain rfl := Option.some.inj asked
      rw [after, TemplateCache.fillPage_eq]
      cases session.cache.load session.files other <;> rfl
  | write | remove | clear => cases asked

theorem answers_iff (asked : event.asked? = some name) :
    (∃ result, session.answer? event = some (.ok result)) ↔
      ∃ result, session.cache.load session.files name = .ok result := by
  cases event with
  | load other =>
      obtain rfl := Option.some.inj asked
      simp [answer?]
  | fillPage other values =>
      obtain rfl := Option.some.inj asked
      simp only [answer?, TemplateCache.fillPage_eq]
      cases session.cache.load session.files other <;> simp [Except.map]
  | write | remove | clear => cases asked

/-- Behind one event more, the calls that count are that event, if it is one, and unless the cache
was cleared, those before. -/
theorem loads_concat :
    Loads start name (events ++ [event]) before ↔
      (before = events ∧ event.asked? = some name
        ∧ ∃ result, (start.run events).cache.load (start.run events).files name = .ok result)
      ∨ (event ≠ .clear ∧ Loads start name events before) := by
  constructor
  · rintro ⟨call, later, cut, asked, answered, uncleared⟩
    cases later using List.reverseRecOn with
    | nil =>
        obtain ⟨rfl, same⟩ := List.append_inj' cut rfl
        obtain rfl := (List.cons.inj same).1
        exact .inl ⟨rfl, asked, (answers_iff asked).mp answered⟩
    | append_singleton later last _ =>
        rw [← List.cons_append, ← List.append_assoc] at cut
        obtain ⟨rfl, same⟩ := List.append_inj' cut rfl
        obtain rfl := (List.cons.inj same).1
        rw [List.mem_append, not_or, List.mem_singleton] at uncleared
        exact .inr ⟨fun e => uncleared.2 e.symm, call, later, rfl, asked, answered, uncleared.1⟩
  · rintro (⟨rfl, asked, loaded⟩ | ⟨kept, call, later, rfl, asked, answered, uncleared⟩)
    · exact ⟨event, [], rfl, asked, (answers_iff asked).mpr loaded, List.not_mem_nil⟩
    · refine ⟨call, later ++ [event], by simp, asked, answered, ?_⟩
      rw [List.mem_append, not_or, List.mem_singleton]
      exact ⟨uncleared, fun e => kept e.symm⟩

theorem Loads.length_lt (loads : Loads start name events before) :
    before.length < events.length := by
  obtain ⟨call, later, rfl, -⟩ := loads
  simp

/-! ### What the cache holds -/

/-- What the cache holds under a name after events: the text of the file at the first call that
counts, and nothing if no call does. -/
def Remembers (start : TemplateSession) (name : Text) (events : List TemplateEvent) : Prop :=
  match (start.run events).cache.texts.get? name with
  | some text =>
      IsTemplateName name ∧ ∃ before, FirstLoad start name events before
        ∧ (start.run before).files.get? (start.cache.pathOf name) = some text
  | none => ∀ before, ¬ Loads start name events before

theorem remembers_of_some {text : Text}
    (cached : (start.run events).cache.texts.get? name = some text) :
    Remembers start name events ↔
      IsTemplateName name ∧ ∃ before, FirstLoad start name events before
        ∧ (start.run before).files.get? (start.cache.pathOf name) = some text := by
  rw [Remembers, cached]

theorem remembers_of_none (fresh : (start.run events).cache.texts.get? name = none) :
    Remembers start name events ↔ ∀ before, ¬ Loads start name events before := by
  rw [Remembers, fresh]

/-- An event that neither clears the cache nor loads the name changes nothing about it. -/
theorem Remembers.unaffected (remembers : Remembers start name events) (kept : event ≠ .clear)
    (same : ((start.run events).after event).cache.texts.get? name
      = (start.run events).cache.texts.get? name)
    (silent : ¬ (event.asked? = some name
      ∧ ∃ result, (start.run events).cache.load (start.run events).files name = .ok result)) :
    Remembers start name (events ++ [event]) := by
  have loads (before : List TemplateEvent) :
      Loads start name (events ++ [event]) before ↔ Loads start name events before := by
    rw [loads_concat]
    constructor
    · rintro (⟨-, call⟩ | ⟨-, earlier⟩)
      · exact absurd call silent
      · exact earlier
    · exact fun earlier => .inr ⟨kept, earlier⟩
  have first (before : List TemplateEvent) (old : FirstLoad start name events before) :
      FirstLoad start name (events ++ [event]) before :=
    ⟨(loads before).mpr old.loads, fun other later => old.least other ((loads other).mp later)⟩
  rw [Remembers, run_concat, same]
  cases cached : (start.run events).cache.texts.get? name with
  | none =>
      rw [remembers_of_none cached] at remembers
      exact fun before later => remembers before ((loads before).mp later)
  | some text =>
      obtain ⟨valid, before, old, written⟩ := (remembers_of_some cached).mp remembers
      exact ⟨valid, before, first before old, written⟩

theorem keep_load_of_some {text : Text} (cached : session.cache.texts.get? name = some text) :
    session.keep (session.cache.load session.files name) = session := by
  rw [TemplateCache.load_cached cached]
  rfl

/-- The cache of a session stays that of its folder. -/
theorem folder_after (session : TemplateSession) (event : TemplateEvent) :
    (session.after event).cache.folder = session.cache.folder := by
  have loaded (asked : Text) :
      (session.keep (session.cache.load session.files asked)).cache.folder
        = session.cache.folder := by
    cases answer : session.cache.load session.files asked with
    | error error => rfl
    | ok result =>
        rcases TemplateCache.load_eq_ok_iff.mp answer with ⟨-, same⟩ | ⟨-, -, -, same⟩ <;>
          rw [keep, same]
  cases event with
  | write | remove | clear => rfl
  | load asked => exact loaded asked
  | fillPage asked values =>
      have calls : (TemplateEvent.fillPage asked values).asked? = some asked := rfl
      rw [after_of_asked calls]
      exact loaded asked

theorem folder_run (start : TemplateSession) (events : List TemplateEvent) :
    (start.run events).cache.folder = start.cache.folder := by
  induction events using List.reverseRecOn with
  | nil => rfl
  | append_singleton events event ih => rw [run_concat, folder_after, ih]

theorem pathOf_run (start : TemplateSession) (events : List TemplateEvent) (name : Text) :
    (start.run events).cache.pathOf name = start.cache.pathOf name := by
  rw [TemplateCache.pathOf, folder_run]
  rfl

/-- A call for another name leaves what is held under this one. -/
theorem get?_keep_load_of_ne {asked : Text} (differs : asked ≠ name) :
    (session.keep (session.cache.load session.files asked)).cache.texts.get? name
      = session.cache.texts.get? name := by
  cases answer : session.cache.load session.files asked with
  | error error => rfl
  | ok result =>
      rcases TemplateCache.load_eq_ok_iff.mp answer with ⟨-, same⟩ | ⟨-, -, -, same⟩
      · rw [keep, same]
      · simp [keep, same, differs]

/-- A call for the name: what is held stays, and a first success is remembered. -/
theorem Remembers.called (remembers : Remembers start name events)
    (asked : event.asked? = some name) : Remembers start name (events ++ [event]) := by
  have uncleared : event ≠ .clear := by
    rintro rfl
    cases asked
  have next : start.run (events ++ [event])
      = (start.run events).keep ((start.run events).cache.load (start.run events).files name) := by
    rw [run_concat, after_of_asked asked]
  cases cached : (start.run events).cache.texts.get? name with
  | some text =>
      obtain ⟨valid, before, first, written⟩ := (remembers_of_some cached).mp remembers
      rw [keep_load_of_some cached] at next
      rw [← next] at cached
      refine (remembers_of_some cached).mpr ⟨valid, before, ?_, written⟩
      refine ⟨loads_concat.mpr (.inr ⟨uncleared, first.loads⟩), fun other loads => ?_⟩
      rcases loads_concat.mp loads with ⟨rfl, -⟩ | ⟨-, earlier⟩
      · exact Nat.le_of_lt first.loads.length_lt
      · exact first.least other earlier
  | none =>
      by_cases loaded : ∃ result,
          (start.run events).cache.load (start.run events).files name = .ok result
      · have none := (remembers_of_none cached).mp remembers
        have first : FirstLoad start name (events ++ [event]) events := by
          refine ⟨loads_concat.mpr (.inl ⟨rfl, asked, loaded⟩), fun other loads => ?_⟩
          rcases loads_concat.mp loads with ⟨rfl, -⟩ | ⟨-, earlier⟩
          · exact Nat.le_refl _
          · exact absurd earlier (none other)
        obtain ⟨⟨text, kept⟩, success⟩ := loaded
        rcases TemplateCache.load_eq_ok_iff.mp success with ⟨held, -⟩ | ⟨-, valid, file, same⟩
        · rw [cached] at held
          cases held
        · rw [success, keep, same] at next
          rw [pathOf_run] at file
          have held : (start.run (events ++ [event])).cache.texts.get? name = some text := by
            simp [next]
          exact (remembers_of_some held).mpr ⟨valid, events, first, file⟩
      · refine remembers.unaffected uncleared ?_ fun call => loaded call.2
        rw [after_of_asked asked]
        cases failed : (start.run events).cache.load (start.run events).files name with
        | error error => rfl
        | ok result => exact absurd ⟨result, failed⟩ loaded

/-- Each event keeps it so that the cache holds what the first call found. -/
theorem Remembers.step (remembers : Remembers start name events) (event : TemplateEvent) :
    Remembers start name (events ++ [event]) := by
  by_cases asked : event.asked? = some name
  · exact remembers.called asked
  · have silent {result : Prop} : ¬ (event.asked? = some name ∧ result) := fun call => asked call.1
    cases event with
    | clear =>
        have fresh : (start.run (events ++ [.clear])).cache.texts.get? name = none := by
          rw [run_concat]
          rfl
        refine (remembers_of_none fresh).mpr fun before loads => ?_
        rcases loads_concat.mp loads with ⟨-, call, -⟩ | ⟨kept, -⟩
        · exact asked call
        · exact kept rfl
    | write path text => exact remembers.unaffected (by simp) rfl silent
    | remove path => exact remembers.unaffected (by simp) rfl silent
    | load other =>
        have differs : other ≠ name := fun same => asked (congrArg some same)
        exact remembers.unaffected (by simp) (get?_keep_load_of_ne differs) silent
    | fillPage other values =>
        have differs : other ≠ name := fun same => asked (congrArg some same)
        have calls : (TemplateEvent.fillPage other values).asked? = some other := rfl
        refine remembers.unaffected (by simp) ?_ silent
        rw [after_of_asked calls]
        exact get?_keep_load_of_ne differs

theorem remembers_run (files : Files) (folder name : Text) (events : List TemplateEvent) :
    Remembers (opened files folder) name events := by
  induction events using List.reverseRecOn with
  | nil =>
      refine (remembers_of_none rfl).mpr fun before loads => ?_
      exact absurd loads.length_lt (by simp)
  | append_singleton events event ih => exact ih.step event

/-! ### What a call answers -/

theorem Loads.begins (loads : Loads start name events before) : before <+: events := by
  obtain ⟨call, later, rfl, -⟩ := loads
  exact List.prefix_append _ _

/-- There is one first call only. -/
theorem FirstLoad.unique {other : List TemplateEvent} (first : FirstLoad start name events before)
    (again : FirstLoad start name events other) : before = other := by
  have same : before.length = other.length :=
    Nat.le_antisymm (first.least other again.loads) (again.least before first.loads)
  exact (List.prefix_of_prefix_length_le first.loads.begins again.loads.begins
    (Nat.le_of_eq same)).eq_of_length same

/-- Behind a call that counts, the text that the first one found is held. -/
theorem FirstLoad.cached (first : FirstLoad (opened files folder) name events before) :
    ∃ text, ((opened files folder).run before).files.get?
        (Path.join folder (name ++ ".html".toList)) = some text
      ∧ ((opened files folder).run events).cache.texts.get? name = some text := by
  have remembers := remembers_run files folder name events
  cases cached : ((opened files folder).run events).cache.texts.get? name with
  | none => exact absurd first.loads ((remembers_of_none cached).mp remembers before)
  | some text =>
      obtain ⟨-, earlier, least, written⟩ := (remembers_of_some cached).mp remembers
      obtain rfl := first.unique least
      exact ⟨text, written, rfl⟩

theorem not_cached_of_invalid (invalid : ¬ IsTemplateName name) :
    ((opened files folder).run events).cache.texts.get? name = none := by
  cases cached : ((opened files folder).run events).cache.texts.get? name with
  | none => rfl
  | some text =>
      have remembers := remembers_run files folder name events
      exact absurd ((remembers_of_some cached).mp remembers).1 invalid

theorem not_cached_iff :
    ((opened files folder).run events).cache.texts.get? name = none ↔
      ∀ before, ¬ FirstLoad (opened files folder) name events before := by
  have remembers := remembers_run files folder name events
  constructor
  · intro fresh before first
    exact (remembers_of_none fresh).mp remembers before first.loads
  · intro none
    cases cached : ((opened files folder).run events).cache.texts.get? name with
    | none => rfl
    | some text =>
        obtain ⟨-, before, first, -⟩ := (remembers_of_some cached).mp remembers
        exact absurd first (none before)

/-- A call for a template fails if and only if there is no first one and no file. -/
theorem load_eq_notFound_iff (valid : IsTemplateName name) :
    ((opened files folder).run events).cache.load ((opened files folder).run events).files name
        = .error (.notFound (Path.join folder (name ++ ".html".toList))) ↔
      (∀ before, ¬ FirstLoad (opened files folder) name events before)
        ∧ ((opened files folder).run events).files.get?
          (Path.join folder (name ++ ".html".toList)) = none := by
  have path : ((opened files folder).run events).cache.pathOf name
      = Path.join folder (name ++ ".html".toList) := pathOf_run _ _ _
  rw [← not_cached_iff]
  cases cached : ((opened files folder).run events).cache.texts.get? name with
  | some text => simp [TemplateCache.load_cached cached]
  | none =>
      rw [TemplateCache.load_fresh cached valid, path]
      cases ((opened files folder).run events).files.get?
        (Path.join folder (name ++ ".html".toList)) <;> simp

/-- A failed call leaves the session as it was. -/
theorem after_of_error {error : TemplateError}
    (failed : session.cache.load session.files name = .error error)
    (asked : event.asked? = some name) : session.after event = session := by
  rw [after_of_asked asked, failed]
  rfl

/-- What a call for a template answers after any events. A name with other characters is refused
whatever files there are, and nothing changes. Any other name stands for one file of the folder. The
text it had at the first call that succeeded since the cache was cleared last is the answer, and
without such a call the text it has now. Without either the call fails, which is not remembered. -/
theorem load_run (files : Files) (folder : Text) (events : List TemplateEvent) (name : Text) :
    let start := opened files folder
    let session := start.run events
    let path := Path.join folder (name ++ ".html".toList)
    (¬ IsTemplateName name →
      (∀ present, session.cache.load present name = .error (.invalidName name))
        ∧ (∀ present values, session.cache.fillPage present name values
          = .error (.invalidName name))
        ∧ session.after (.load name) = session
        ∧ ∀ values, session.after (.fillPage name values) = session)
    ∧ (IsTemplateName name →
      (∀ before, FirstLoad start name events before →
        ∃ text, (start.run before).files.get? path = some text
          ∧ session.cache.load session.files name = .ok (text, session.cache))
        ∧ ((∀ before, ¬ FirstLoad start name events before) →
          ∀ text, session.files.get? path = some text →
            ∃ cache, session.cache.load session.files name = .ok (text, cache))
        ∧ (session.cache.load session.files name = .error (.notFound path) ↔
          (∀ before, ¬ FirstLoad start name events before) ∧ session.files.get? path = none)
        ∧ (∀ error, session.cache.load session.files name = .error error →
          error = .notFound path ∧ session.after (.load name) = session
            ∧ (∀ values, session.after (.fillPage name values) = session)
            ∧ ∀ text, ∃ cache,
              session.cache.load (session.files.write path text) name = .ok (text, cache))
        ∧ (∀ present other, present.get? path = other.get? path →
          session.cache.load present name = session.cache.load other name
            ∧ ∀ values, session.cache.fillPage present name values
              = session.cache.fillPage other name values)
        ∧ Path.parts path = Path.parts folder ++ [name ++ ".html".toList])
    ∧ "template not found: ".toList <+: (TemplateError.notFound path).message
    ∧ (TemplateError.invalidName name).message = "invalid template name: ".toList ++ name := by
  intro start session path
  have samePath : session.cache.pathOf name = path := pathOf_run start events name
  refine ⟨fun invalid => ?_, fun valid => ?_, ?_, rfl⟩
  · have fresh : session.cache.texts.get? name = none := not_cached_of_invalid invalid
    have refused (present : Files) :
        session.cache.load present name = .error (.invalidName name) :=
      TemplateCache.load_invalid fresh invalid
    refine ⟨refused, fun present values => ?_, after_of_error (refused _) rfl,
      fun values => after_of_error (refused _) rfl⟩
    rw [TemplateCache.fillPage_eq, refused]
    rfl
  · have fresh_iff : session.cache.texts.get? name = none ↔
        ∀ before, ¬ FirstLoad start name events before := not_cached_iff
    refine ⟨?_, ?_, load_eq_notFound_iff valid, ?_, ?_, ?_⟩
    · intro before first
      obtain ⟨text, written, cached⟩ := first.cached
      exact ⟨text, written, TemplateCache.load_cached cached⟩
    · intro none text present
      rw [TemplateCache.load_fresh (fresh_iff.mpr none) valid, samePath, present]
      exact ⟨_, rfl⟩
    · intro error failed
      obtain ⟨fresh, missing⟩ := TemplateCache.load_eq_error valid failed
      refine ⟨by rw [missing, samePath], after_of_error failed rfl,
        fun values => after_of_error failed rfl, fun text => ?_⟩
      rw [TemplateCache.load_fresh fresh valid, samePath, Files.get?_write, if_pos rfl]
      exact ⟨_, rfl⟩
    · intro present other same
      have sameLoad : session.cache.load present name = session.cache.load other name :=
        TemplateCache.load_congr (by rw [samePath, same])
      refine ⟨sameLoad, fun values => ?_⟩
      rw [TemplateCache.fillPage_eq, TemplateCache.fillPage_eq, sameLoad]
    · have sameFolder : session.cache.folder = folder := folder_run start events
      rw [← samePath, TemplateCache.parts_pathOf session.cache valid, sameFolder]
  · have behindName := List.prefix_append ("template not found: ".toList ++ path) ": Error: ".toList
    exact ((List.prefix_append _ path).trans behindName).trans (List.prefix_append _ _)

/-- A template keeps the text of its first load. The call that failed before does not count. -/
example :
    let session := (opened {} "t".toList).run
      [.load "a".toList, .write "t/a.html".toList "one".toList, .fillPage "a".toList .empty,
        .write "t/a.html".toList "two".toList]
    (session.cache.load session.files "a".toList).map (·.1) = .ok "one".toList := by
  decide

end TemplateSession

end MarkPress
