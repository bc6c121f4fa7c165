import Treewalk.Text.ClusterClass

/-!
Clusters: the characters that a reader takes for one, such as a letter with its
accents, a Hangul syllable, a flag, or pictographs joined to one picture. A text
is cut into clusters from its start, by the rules for extended clusters.
-/

namespace Treewalk
namespace Text

/-- What a cluster has come to, as far as it matters for what can still join. -/
inductive ClusterStem where
  | plain
  /-- it ends in half a flag -/
  | flag
  /-- it ends in a pictograph, perhaps with marks -/
  | picture
  /-- it ends in a pictograph, perhaps with marks, and a joiner -/
  | pictureJoiner
  /-- it ends in a consonant, perhaps with marks -/
  | consonant
  /-- it ends in a consonant with marks, a linker among them -/
  | linkedConsonant
deriving DecidableEq

namespace ClusterStem

/-- What a cluster has come to with a character of the given class more. -/
def advance (stem : ClusterStem) (next : ClusterClass) : ClusterStem :=
  match next with
  | .regional => if stem = flag then plain else flag
  | .pictograph => picture
  | .consonant => consonant
  | .extend =>
      match stem with
      | picture => picture
      | consonant => consonant
      | linkedConsonant => linkedConsonant
      | _ => plain
  | .linker =>
      match stem with
      | picture => picture
      | consonant | linkedConsonant => linkedConsonant
      | _ => plain
  | .nonJoiner => if stem = picture then picture else plain
  | .joiner =>
      match stem with
      | picture => pictureJoiner
      | consonant => consonant
      | linkedConsonant => linkedConsonant
      | _ => plain
  | _ => plain

end ClusterStem

/-- A place in a text: the class of the character before it, and what the cluster
with that character has come to. -/
structure ClusterPlace where
  before : ClusterClass
  stem : ClusterStem

namespace ClusterClass

/-- Whether nothing can stand in a cluster with a character of this class. -/
def isBarrier : ClusterClass → Bool
  | carriageReturn | lineFeed | control => true
  | _ => false

/-- Whether a character of this class joins any character before it. -/
def isMark : ClusterClass → Bool
  | extend | linker | nonJoiner | spacing | joiner => true
  | _ => false

end ClusterClass

namespace ClusterPlace

/-- The place before all text, where there is nothing to join. -/
def start : ClusterPlace :=
  ⟨.control, .plain⟩

/-- Whether a character of the given class belongs to the cluster at this place. -/
def joins (place : ClusterPlace) (next : ClusterClass) : Bool :=
  if place.before.isBarrier || next.isBarrier then
    place.before = .carriageReturn && next = .lineFeed
  else if next.isMark || place.before = .prepend then true
  else
    match next with
    | .consonant => place.stem = .linkedConsonant
    | .pictograph => place.stem = .pictureJoiner
    | .regional => place.stem = .flag
    | .lead | .openSyllable | .closedSyllable => place.before = .lead
    | .vowel =>
        place.before = .lead || place.before = .vowel || place.before = .openSyllable
    | .tail =>
        place.before = .vowel || place.before = .openSyllable || place.before = .tail ||
          place.before = .closedSyllable
    | _ => false

/-- The place after a character that belongs to the cluster. -/
def extend (place : ClusterPlace) (next : ClusterClass) : ClusterPlace :=
  ⟨next, place.stem.advance next⟩

/-- The place after a character that starts a cluster. -/
def afterFirst (first : ClusterClass) : ClusterPlace :=
  ⟨first, ClusterStem.plain.advance first⟩

end ClusterPlace

/-- Cut a text at a place: what still belongs to the cluster there, and the
clusters after it. -/
def cutFrom (place : ClusterPlace) : List Char → List Char × List (List Char)
  | [] => ([], [])
  | c :: cs =>
      let next := ClusterClass.ofChar c
      if place.joins next then
        match cutFrom (place.extend next) cs with
        | (own, others) => (c :: own, others)
      else
        match cutFrom (.afterFirst next) cs with
        | (own, others) => ([], (c :: own) :: others)

def clusters (text : List Char) : List (List Char) :=
  (cutFrom .start text).2

end Text
end Treewalk
