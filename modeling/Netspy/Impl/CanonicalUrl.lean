import Netspy.Framework.Url.Split
import Netspy.Impl.Request

/-!
# `_canonical_url` with `urllib.parse`

The four functions of `urllib.parse` that `_canonical_url` calls, as they are in a
release of CPython.
-/

namespace Netspy

/-- The library with the `urllib.parse` of a release, whose checks of a network location
are `check`. -/
def urllib (v : Url.Release) (check : List Char → Bool) (lib : Stdlib) : Stdlib :=
  { lib with
    urlsplit := fun url =>
      match Url.split v check url.toList with
      | some p => .ok ⟨.ofList p.scheme, .ofList p.netloc, .ofList p.path, .ofList p.query, .ofList p.fragment⟩
      | none => .error "ValueError"
    parseQsl := fun query => (Url.parseQsl query.toList).map fun p => (.ofList p.1, .ofList p.2)
    urlencode := fun ps => .ofList (Url.urlencode (ps.map fun p => (p.1.toList, p.2.toList)))
    urlunsplit := fun s =>
      .ofList (Url.unsplit v.unsplit ⟨s.scheme.toList, s.netloc.toList, s.path.toList, s.query.toList, s.fragment.toList⟩) }

end Netspy
