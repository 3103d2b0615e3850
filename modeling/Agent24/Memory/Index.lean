import Agent24.Platform

/-! The text projected into the full-text index, and the match expression built from a query. -/

set_option autoImplicit false
namespace Agent24.Memory
open Library

def isHan (ch : Char) : Bool :=
  let n := ch.toNat
  (0x3400 ≤ n && n ≤ 0x4DBF) || (0x4E00 ≤ n && n ≤ 0x9FFF) || (0xF900 ≤ n && n ≤ 0xFAFF) ||
    (0x20000 ≤ n && n ≤ 0x2FA1F)

/-- `windows(2)` of a run of characters. -/
def pairs : List Char → List String
  | a :: b :: rest => String.ofList [a, b] :: pairs (b :: rest)
  | _ => []

def runBigrams (piece : String) : List String :=
  match piece.toList with
  | [only] => [String.ofList [only]]
  | chars => pairs chars

/-- The terms `cjk_bigrams` joins. -/
def cjkTerms (text : String) : List String :=
  ((Text.split (fun ch => !isHan ch) text).filter (· ≠ "")).flatMap runBigrams

def cjkBigrams (text : String) : String := String.intercalate " " (cjkTerms text)

section
variable (P : Platform)

def mixedNonHanTerms (text : String) : List String :=
  ((Text.split (fun ch => !P.isAlphanumeric ch) text).filter fun term => term.toList.any isHan).flatMap
    fun term => (Text.split isHan term).filter (· ≠ "")

def appendMixedNonHanTerms (text : String) : String :=
  let terms := mixedNonHanTerms P text
  if terms.isEmpty then text else text ++ " " ++ String.intercalate " " terms

/-- A row of `mem_assertions_fts`. -/
structure FtsRow where
  id : String
  scopeOwner : String
  subject : String
  predicate : String
  object : String
  cjk : String
  deriving DecidableEq

/-- `FtsRetriever::index_tx`: the row it inserts. -/
def ftsRow (id owner subject predicate object : String) : FtsRow where
  id := id
  scopeOwner := owner
  subject := appendMixedNonHanTerms P subject
  predicate := appendMixedNonHanTerms P predicate
  object := appendMixedNonHanTerms P object
  cjk := cjkBigrams (subject ++ " " ++ predicate ++ " " ++ object)

def orModeNoiseWords : List String :=
  ["to", "is", "the", "a", "an", "of", "in", "on", "for", "my", "i", "me", "you", "what", "how",
    "why", "are", "do", "does", "can", "please", "user", "said", "remember", "and", "with", "it",
    "that", "this", "be", "at", "or", "as", "by", "from", "s", "t"]

def cjkFunctionChars : List Char := "我你他她它们的吗呢吧啊么什哪怎这那".toList

def cjkStopwordBigrams : List String :=
  ["我的", "我对", "我在", "我是", "我有", "我养", "你的", "你在", "你是", "他的", "她的", "它的",
    "什么", "怎么", "哪里", "哪个", "这个", "那个", "这是", "那是", "是什", "么样"]

def isOrModeNoiseTerm (term : String) : Bool := orModeNoiseWords.contains (P.toLowercase term)

def isFunctionOnlyBigram (bigram : String) : Bool :=
  match bigram.toList with
  | [only] => cjkFunctionChars.contains only
  | _ => cjkStopwordBigrams.contains bigram

/-- `None` when the query holds no searchable term. -/
def toMatchQueryWith (query joiner : String) : Option String :=
  let orMode := joiner == " OR "
  let words := (Text.split (fun ch => !P.isAlphanumeric ch) query).filter fun term =>
    term ≠ "" && term.toList.any fun ch => !isHan ch
  let expanded := words.flatMap fun term =>
    term :: (Text.split isHan term).filter fun word =>
      orMode && term.toList.any isHan && word ≠ ""
  let kept := expanded.filter fun term => !orMode || !isOrModeNoiseTerm P term
  let bigrams := (cjkTerms query).filter fun bigram => !orMode || !isFunctionOnlyBigram bigram
  let terms := (kept ++ bigrams).map fun term => "\"" ++ term ++ "\""
  if terms.isEmpty then none else some (String.intercalate joiner terms)

end

example : cjkTerms "我住在 B 区" = ["我住", "住在", "区"] := by decide

end Agent24.Memory
