import SoliditySession.Text.Cluster.Kind
/- Text cut into clusters, the characters that a reader sees: each is a base with all that is drawn
with it. Nothing is lost: the clusters joined are the text. -/
namespace SoliditySession.Text

/-- How far the text has come in binding two consonants. -/
inductive Conjunct
  | none
  | consonant
  | linked
deriving DecidableEq, Repr

def Conjunct.next : Conjunct → ClusterKind → Conjunct
  | _, .consonant => .consonant
  | .consonant, .linker => .linked
  | c, .extend | c, .joiner | c, .linker => c
  | _, _ => .none

/-- How far the text has come in joining two pictographs. -/
inductive Picture
  | none
  | pictograph
  | joined
deriving DecidableEq, Repr

def Picture.next : Picture → ClusterKind → Picture
  | _, .pictograph => .pictograph
  | .pictograph, .joiner => .joined
  | .pictograph, .extend | .pictograph, .nonJoiner | .pictograph, .linker => .pictograph
  | _, _ => .none

/-- What the end of a text tells about its bond to a further character. -/
structure ClusterEdge where
  last : ClusterKind
  /-- Whether the end is one half of a flag that waits for the other. -/
  halfFlag : Bool
  picture : Picture
  conjunct : Conjunct
deriving DecidableEq, Repr

namespace ClusterEdge

def next (e : ClusterEdge) (k : ClusterKind) : ClusterEdge :=
  ⟨k, k == .region && !e.halfFlag, e.picture.next k, e.conjunct.next k⟩

/-- The edge behind the first character. -/
def start (k : ClusterKind) : ClusterEdge := next ⟨.control, false, .none, .none⟩ k

/-- Whether a character of kind `k` belongs to the cluster that ends here. -/
def holds (e : ClusterEdge) (k : ClusterKind) : Bool :=
  match e.last, k with
  | .carriageReturn, .lineFeed => true
  | .carriageReturn, _ | .lineFeed, _ | .control, _ => false
  | _, .carriageReturn | _, .lineFeed | _, .control => false
  | _, .extend | _, .nonJoiner | _, .joiner | _, .linker | _, .spacing => true
  | .prepended, _ => true
  | .leadingConsonant, .leadingConsonant | .leadingConsonant, .vowel
  | .leadingConsonant, .openSyllable | .leadingConsonant, .closedSyllable => true
  | .openSyllable, .vowel | .openSyllable, .trailingConsonant => true
  | .vowel, .vowel | .vowel, .trailingConsonant => true
  | .closedSyllable, .trailingConsonant | .trailingConsonant, .trailingConsonant => true
  | _, .consonant => e.conjunct == .linked
  | _, .pictograph => e.picture == .joined
  | _, .region => e.halfFlag
  | _, _ => false

end ClusterEdge

/-- What of a text still belongs to the cluster before it, and the clusters after that. -/
def clustersBehind (e : ClusterEdge) : List Char → List Char × List (List Char)
  | [] => ([], [])
  | c :: cs =>
    let k := ClusterKind.of c
    let (head, tail) := clustersBehind (e.next k) cs
    if e.holds k then (c :: head, tail) else ([], (c :: head) :: tail)

def clusters : List Char → List (List Char)
  | [] => []
  | c :: cs =>
    let (head, tail) := clustersBehind (.start (.of c)) cs
    (c :: head) :: tail

end SoliditySession.Text
