import MarkupHtml.Proofs.Html.Numbering

namespace MarkupHtml.Html

inductive Call
  | write (e : Event)
  | markSplit
  | body
  | finish
deriving DecidableEq

inductive Reply
  | done
  | refused (error : WriteError)
  | text (body : String)
  | document (html : SplitHtml)
deriving DecidableEq

structure Answer where
  reply : Reply
  atTopLevel : Bool
  notices : List Notice
deriving DecidableEq

namespace Writer

def call (w : Writer) : Call → Writer × Reply
  | .write e =>
    match w.write e with
    | (w', none) => (w', .done)
    | (w', some error) => (w', .refused error)
  | .markSplit => (w.markSplit, .done)
  | .body =>
    match w.body with
    | .ok text => (w, .text text)
    | .error error => (w, .refused error)
  | .finish =>
    match w.finish with
    | (w', .ok html) => (w', .document html)
    | (w', .error error) => (w', .refused error)

def after (w : Writer) : List Call → Writer
  | [] => w
  | c :: cs => (w.call c).1.after cs

def answer (w : Writer) (c : Call) : Answer :=
  ⟨(w.call c).2, (w.call c).1.atTopLevel, (w.call c).1.journal.drop w.journal.length⟩

def answers (w : Writer) : List Call → List Answer
  | [] => []
  | c :: cs => w.answer c :: (w.call c).1.answers cs

/-- The writer with its innermost open container taken for closed, though nothing was written. -/
def popped (w : Writer) : Writer := { w with opened := w.opened.tail }

@[simp] theorem popped_opened (w : Writer) : w.popped.opened = w.opened.tail := rfl

theorem popped_of_nil {w : Writer} (h : w.opened = []) : w.popped = w := by
  rw [popped, h, List.tail_nil, ← h]

/-- An end that is refused is not written, but has taken away what it was to be compared with. -/
theorem writeText_stop_refused {w w' : Writer} {c : ContainerEnd} {err : WriteError}
    (hw : w.writeText (.stop c) = (w', some err)) : w' = w.popped := by
  simp only [writeText] at hw
  split at hw
  · split at hw
    · cases hw
    · cases hw
      rfl
  · cases hw
    rfl

theorem write_stop_refused {w w' : Writer} {c : ContainerEnd} {err : WriteError}
    (hw : w.write (.stop c) = (w', some err)) : w' = w.popped := by
  rw [write, Event.isText, Bool.true_or, if_pos rfl] at hw
  exact writeText_stop_refused hw

theorem misfit?_of_not_closes {w : Writer} {e : Event} (he : e.nesting ≠ .closes) :
    w.misfit? e = none := by
  cases e with
  | stop c => exact absurd rfl he
  | _ => rfl

theorem write_refused {w w' : Writer} {e : Event} {err : WriteError} (h : w.Registered)
    (he : e.nesting ≠ .closes) (hw : w.write e = (w', some err)) : w' = w := by
  have hfault : w.fault? e = some err := by
    rw [← write_snd h e, hw]
  have htext : ¬ (e.isText || w.dropsAttributes e) = true := by
    intro ht
    rw [fault?, if_pos ht, misfit?_of_not_closes he] at hfault
    cases hfault
  rw [write, if_neg htext] at hw
  cases hw
  rfl

theorem journal_refused {w w' : Writer} {e : Event} {err : WriteError} (h : w.Registered)
    (hw : w.write e = (w', some err)) : w'.journal = w.journal := by
  by_cases he : e.nesting = .closes
  · cases e with
    | stop c =>
      obtain rfl := write_stop_refused hw
      rfl
    | _ => cases he
  · obtain rfl := write_refused h he hw
    rfl

/-- What a call does: an event is taken or refused, and a document can be asked for when everything
is closed. -/
inductive Effect (w : Writer) : Call → Writer × Reply → Prop
  | taken {e : Event} (hf : w.fault? e = none) : Effect w (.write e) (w.written e, .done)
  | refused {e : Event} {err : WriteError} (he : e.nesting ≠ .closes) (hf : w.fault? e = some err) :
    Effect w (.write e) (w, .refused err)
  | popped {c : ContainerEnd} {err : WriteError} (hf : w.fault? (.stop c) = some err) :
    Effect w (.write (.stop c)) (w.popped, .refused err)
  | marked : Effect w .markSplit (w.markSplit, .done)
  | unclosed {c : Call} {k : ContainerKey} (hc : c = .body ∨ c = .finish)
    (hk : w.opened.head? = some k) : Effect w c (w, .refused (.unclosed k))
  | text (ho : w.opened.head? = none) : Effect w .body (w, .text w.main.text)
  | document (ho : w.opened.head? = none) :
    Effect w .finish (w.withFooter, .document w.withFooter.split)

theorem effect_call {w : Writer} (h : w.Registered) (c : Call) : Effect w c (w.call c) := by
  cases c with
  | write e =>
    have hsnd := write_snd h e
    rw [call]
    cases hw : w.write e with
    | mk w' err =>
      rw [hw] at hsnd
      cases err with
      | none =>
        obtain ⟨_, rfl⟩ := write_ok h hw
        exact .taken hsnd.symm
      | some err =>
        by_cases he : e.nesting = .closes
        · cases e with
          | stop c =>
            obtain rfl := write_stop_refused hw
            exact .popped hsnd.symm
          | _ => cases he
        · obtain rfl := write_refused h he hw
          exact .refused he hsnd.symm
  | markSplit => exact .marked
  | body =>
    rw [call, body, unclosed?]
    cases hk : w.opened.head? with
    | none => exact .text hk
    | some k => exact .unclosed (.inl rfl) hk
  | finish =>
    rw [call, finish, unclosed?]
    cases hk : w.opened.head? with
    | none => exact .document hk
    | some k => exact .unclosed (.inr rfl) hk

theorem call_write_stop_opened {w : Writer} (h : w.Registered) (c : ContainerEnd) :
    (w.call (.write (.stop c))).1.opened = w.opened.tail := by
  have heffect := effect_call h (.write (.stop c))
  generalize w.call (.write (.stop c)) = r at heffect
  cases heffect with
  | taken hf => exact written_opened w (.stop c)
  | refused he hf => exact absurd rfl he
  | popped hf => rfl
  | unclosed hc hk => exact hc.elim nofun nofun

theorem Registered.call {w : Writer} (h : w.Registered) (c : Call) :
    (w.call c).1.Registered := by
  have heffect := effect_call h c
  generalize w.call c = r at heffect
  cases heffect with
  | taken hf => exact h.written _
  | marked => exact h.markSplit
  | document ho => exact nofun
  | refused | popped | unclosed | text => exact h

theorem Registered.after {w : Writer} (h : w.Registered) (cs : List Call) :
    (w.after cs).Registered := by
  induction cs generalizing w with
  | nil => exact h
  | cons c cs ih => exact ih (h.call c)

theorem answers_append (w : Writer) (cs ds : List Call) :
    w.answers (cs ++ ds) = w.answers cs ++ (w.after cs).answers ds := by
  induction cs generalizing w with
  | nil => rfl
  | cons c cs ih =>
    rw [List.cons_append, answers, ih]
    rfl

theorem length_answers (w : Writer) (cs : List Call) : (w.answers cs).length = cs.length := by
  induction cs generalizing w with
  | nil => rfl
  | cons c cs ih => exact congrArg Nat.succ (ih _)

def ends (n : Nat) : List Call := List.replicate n (.write (.stop .div))

theorem after_ends_opened {w : Writer} (h : w.Registered) (n : Nat) :
    (w.after (ends n)).opened = w.opened.drop n := by
  induction n generalizing w with
  | zero => rfl
  | succ n ih =>
    change ((w.call (.write (.stop .div))).1.after (ends n)).opened = _
    rw [ih (h.call _), call_write_stop_opened h, List.drop_tail]

theorem reply_body {w : Writer} :
    (w.call .body).2 =
      match w.opened.head? with
      | some k => .refused (.unclosed k)
      | none => .text w.main.text := by
  rw [call, body, unclosed?]
  cases w.opened.head? <;> rfl

theorem popped_answers_ne {w : Writer} (h : w.Registered) (ho : w.opened ≠ []) :
    ∃ later, w.popped.answers later ≠ w.answers later := by
  refine ⟨ends w.opened.tail.length ++ [.body], fun heq => ?_⟩
  rw [answers_append, answers_append] at heq
  have hbody := List.append_inj_right heq (by rw [length_answers, length_answers])
  have hreply := congrArg Answer.reply (List.cons.inj hbody).1
  change (call _ .body).2 = (call _ .body).2 at hreply
  have hpopped : w.popped.Registered := h
  rw [reply_body, reply_body, after_ends_opened hpopped, after_ends_opened h, popped_opened,
    List.drop_length] at hreply
  obtain ⟨k, ks, hk⟩ := List.exists_cons_of_ne_nil ho
  have hleft : (w.opened.drop w.opened.tail.length).head? ≠ none := by
    rw [Ne, List.head?_eq_none_iff, List.drop_eq_nil_iff, hk, List.tail_cons, List.length_cons]
    omega
  cases hhead : (w.opened.drop w.opened.tail.length).head? with
  | none => exact hleft hhead
  | some j =>
    rw [hhead] at hreply
    cases hreply

theorem finish_ok_iff (w : Writer) : (∃ html, w.finish.2 = .ok html) ↔ w.opened = [] := by
  rw [finish, unclosed?]
  cases ho : w.opened with
  | nil => exact iff_of_true ⟨_, rfl⟩ rfl
  | cons k ks =>
    refine iff_of_false ?_ (List.cons_ne_nil k ks)
    rintro ⟨html, hhtml⟩
    cases hhtml

end Writer

/-- What a writer `w` that has refused an event is like afterwards. -/
structure RefusedWrite (w w' : Writer) (e : Event) : Prop where
  /-- An event that is no end leaves no trace. -/
  unchanged : e.nesting ≠ .closes → w' = w
  /-- Of an end no more is left than that the innermost container counts as closed. -/
  popped : e.nesting = .closes → w' = { w with opened := w.opened.tail }
  seen : (∀ later, w'.answers later = w.answers later) ↔ e.nesting ≠ .closes ∨ w.opened = []
  finishes : e.nesting = .closes → ((∃ html, w'.finish.2 = .ok html) ↔ w.opened.length ≤ 1)

open Writer

/-- Whatever was called before, a refused event leaves all but the open containers alone, and these
too unless it is an end. -/
theorem refused_write (calls : List Call) {e : Event} {w' : Writer} {err : WriteError}
    (hw : (({} : Writer).after calls).write e = (w', some err)) :
    RefusedWrite (({} : Writer).after calls) w' e := by
  have hempty : ({} : Writer).Registered := sound_empty.registered
  have h := hempty.after calls
  generalize ({} : Writer).after calls = w at hw h
  by_cases he : e.nesting = .closes
  · have hpopped : w' = w.popped := by
      cases e with
      | stop c => exact write_stop_refused hw
      | _ => cases he
    subst hpopped
    refine ⟨fun hne => absurd he hne, fun _ => rfl, ⟨?tells, ?silent⟩, fun _ => ?finishes⟩
    case tells =>
      intro hsame
      by_contra hne
      obtain ⟨later, hlater⟩ := popped_answers_ne h fun ho => hne (.inr ho)
      exact hlater (hsame later)
    case silent =>
      intro ho later
      rw [popped_of_nil (ho.resolve_left fun hne => hne he)]
    case finishes =>
      rw [finish_ok_iff, popped_opened, ← List.length_eq_zero_iff, List.length_tail]
      omega
  · obtain rfl := write_refused h he hw
    exact ⟨fun _ => rfl, fun hc => absurd hc he, iff_of_true (fun _ => rfl) (.inl he),
      fun hc => absurd hc he⟩

theorem refused_write_inDiv :
    (({} : Writer).after [.write (.plain .div), .write (.plain .paragraph)]).write (.stop .sect) =
      ((({} : Writer).after [.write (.plain .div), .write (.plain .paragraph)]).popped,
        some (.mismatchedEnd .sect (some .paragraph))) ∧
    RefusedWrite (({} : Writer).after [.write (.plain .div), .write (.plain .paragraph)])
      (({} : Writer).after [.write (.plain .div), .write (.plain .paragraph)]).popped
      (.stop .sect) := by
  have hw : (({} : Writer).after [.write (.plain .div), .write (.plain .paragraph)]).write
      (.stop .sect) =
        ((({} : Writer).after [.write (.plain .div), .write (.plain .paragraph)]).popped,
          some (.mismatchedEnd .sect (some .paragraph))) := by decide
  exact ⟨hw, refused_write _ hw⟩

/-- Inside a paragraph an end of something else is refused. Without it the document could not be
ended, behind it the document is ended with the paragraph left open. -/
theorem refused_end_finishes :
    ((({} : Writer).after [.write (.plain .paragraph)]).write (.stop .div)).2 =
      some (.mismatchedEnd .div (some .paragraph)) ∧
    (({} : Writer).after [.write (.plain .paragraph)]).answers [.finish] =
      [⟨.refused (.unclosed .paragraph), false, []⟩] ∧
    ((({} : Writer).after [.write (.plain .paragraph)]).write (.stop .div)).1.answers [.finish] =
      [⟨.document ⟨"<p>", ""⟩, true, []⟩] := by
  decide

end MarkupHtml.Html
