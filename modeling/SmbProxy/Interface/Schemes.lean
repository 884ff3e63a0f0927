import SmbProxy.Library.Machine
import SmbProxy.Model.Url

/-!
# What the registration of schemes promises

`registry` is the table after a sequence of registrations, with the schemes that have been
handed out. A query is answered as promised (`FoundAgain`) if it finds the scheme that was
registered with its name, or nothing. A registered name shadows the queries it is a proper
prefix of (`Shadowed`).
-/

set_option autoImplicit false

namespace SmbProxy.Interface

open SmbProxy.Library SmbProxy.Model

/-! ## Registrations -/

/-- The table, and the names that have been registered with their schemes. -/
structure Registry where
  users : UserSchemes
  registered : List (List UInt8 × ButilUrlScheme)

def registerStep (r : Registry) (name : List UInt8) : Registry :=
  match butilRegisterScheme r.users name with
  | (some scheme, users) => ⟨users, (name, scheme) :: r.registered⟩
  | (none, users) => ⟨users, r.registered⟩

/-- The table before the first registration. -/
def emptyRegistry : Registry := ⟨fun _ => [], []⟩

def registry (names : List (List UInt8)) : Registry := run registerStep emptyRegistry names

/-! ## Names -/

/-- Names that differ in the case of their letters at most. -/
def SameName (s t : List UInt8) : Prop := s.map tolower = t.map tolower

instance (s t : List UInt8) : Decidable (SameName s t) := inferInstanceAs (Decidable (_ = _))

/-- The names that `butil_scheme_name` or `butil_scheme_from_name` knows by itself. -/
def builtinNames : List (List UInt8) :=
  schemeNames.map Prod.fst ++ [ascii ['s', 'i', 'p'], ascii ['s', 'i', 'p', 's']]

def BuiltIn (name : List UInt8) : Prop := ∃ builtin ∈ builtinNames, SameName name builtin

instance (name : List UInt8) : Decidable (BuiltIn name) :=
  inferInstanceAs (Decidable (∃ builtin ∈ builtinNames, SameName name builtin))

/-- The names of a sequence of registrations. -/
structure RegisterNames (names : List (List UInt8)) : Prop where
  few : names.length ≤ 4
  sized : ∀ name ∈ names, name ≠ [] ∧ name.length < maxUrlScheme
  distinct : names.Pairwise fun name name' => ¬ SameName name name'
  foreign : ∀ name ∈ names, ¬ BuiltIn name

/-! ## Queries -/

/-- A query by the name of a registered scheme finds this scheme, which has its name; one by
a name that is neither built in nor registered finds nothing. -/
structure FoundAgain (r : Registry) (query : List UInt8) : Prop where
  found : ∀ name scheme, (name, scheme) ∈ r.registered → SameName name query →
    butilSchemeName r.users scheme = name ∧ butilSchemeFromName r.users query = some scheme
  rejected : ¬ BuiltIn query →
    (∀ name scheme, (name, scheme) ∈ r.registered → ¬ SameName name query) →
    butilSchemeFromName r.users query = none

/-- A registered name is a proper prefix of the query, and no name registered before it is the
query. -/
def Shadowed (names : List (List UInt8)) (query : List UInt8) : Prop :=
  ∃ before name after, names = before ++ name :: after ∧
    name.map tolower <+: query.map tolower ∧ ¬ SameName name query ∧
    ∀ other ∈ before, ¬ SameName other query

/-- The names in `s_user_schemes` are strings in their fields. -/
def StoredNames (users : UserSchemes) : Prop := ∀ n, (users n).length < maxUrlScheme ∧ 0 ∉ users n

end SmbProxy.Interface
