import MarkupHtml.Stream

namespace MarkupHtml

structure Entries (ε : Type) where
  table : List (String × ε)
  permalink : ε → String

namespace InternalLink

/-- A name and the fragment behind it, which begins with `#` unless it is empty. -/
structure Target where
  name : String
  fragment : String
deriving DecidableEq

def Target.ofPath (path : List Char) : Target :=
  ⟨String.ofList (path.takeWhile (· != '#')), String.ofList (path.dropWhile (· != '#'))⟩

def target? (destination : String) : Option Target :=
  match destination.toList with
  | '~' :: '/' :: path => some (Target.ofPath path)
  | _ => none

def resolve {ε : Type} (entries : Entries ε) (destination : String) :
    Except MarkupError (Option (String × ε × String)) :=
  match target? destination with
  | none => .ok none
  | some t =>
    match entries.table.lookup t.name with
    | some entry => .ok (some (t.name, entry, entries.permalink entry ++ t.fragment))
    | none => .error (.unknownInternalLink destination)

def resolveEvent {ε : Type} (entries : Entries ε) :
    Event → Except MarkupError (Event × Option (String × ε))
  | .start (.link destination) a =>
    match resolve entries destination with
    | .error e => .error e
    | .ok none => .ok (.start (.link destination) a, none)
    | .ok (some (name, entry, url)) => .ok (.start (.link url) a, some (name, entry))
  | .image destination alt a =>
    match resolve entries destination with
    | .error e => .error e
    | .ok none => .ok (.image destination alt a, none)
    | .ok (some (_, _, url)) => .ok (.image url alt a, none)
  | e => .ok (e, none)

def insertName {ε : Type} (name : String) (entry : ε) : List (String × ε) → List (String × ε)
  | [] => [(name, entry)]
  | (n, e) :: rest =>
    if Text.Precedes name n then (name, entry) :: (n, e) :: rest
    else if n = name then (n, entry) :: rest
    else (n, e) :: insertName name entry rest

/-- The events with their destinations resolved, and the entries linked to, in the order of their
names. The first destination without an entry is an error. -/
def resolveNamed {ε : Type} (entries : Entries ε) :
    List Event → Except MarkupError (List Event × List (String × ε))
  | [] => .ok ([], [])
  | e :: es =>
    match resolveEvent entries e with
    | .error err => .error err
    | .ok (e', link) =>
      match resolveNamed entries es with
      | .error err => .error err
      | .ok (es', linked) =>
        match link with
        | none => .ok (e' :: es', linked)
        | some (name, entry) => .ok (e' :: es', insertName name entry linked)

structure Resolved (ε : Type) where
  events : List Event
  linked : List ε

def resolveAll {ε : Type} (entries : Entries ε) (events : List Event) :
    Except MarkupError (Resolved ε) :=
  match resolveNamed entries events with
  | .error e => .error e
  | .ok (events, linked) => .ok ⟨events, linked.map Prod.snd⟩

end InternalLink
end MarkupHtml
