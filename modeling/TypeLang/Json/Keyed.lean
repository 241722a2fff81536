/-!
# Entries sorted by key

A list of keys and values in strictly ascending order of the keys, code point by code point.
`insertKey` keeps the order; a value under a key that is already there replaces the old one.
-/

namespace TypeLang

/-- The entries after `value` is put under `key`. -/
def insertKey {α : Type} (key : String) (value : α) : List (String × α) → List (String × α)
  | [] => [(key, value)]
  | (k, v) :: rest =>
    if key < k then (key, value) :: (k, v) :: rest
    else if key = k then (key, value) :: rest
    else (k, v) :: insertKey key value rest

/-- The entries after each of `more` is put in, in order. -/
def insertKeys {α : Type} (entries more : List (String × α)) : List (String × α) :=
  more.foldl (fun entries e => insertKey e.1 e.2 entries) entries

end TypeLang
