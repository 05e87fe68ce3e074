import ClasspathSymbols.SourceFile.Token

/-!
# Bracket trees

The tokens of a source, grouped by its brackets. A closing bracket without its opening one is left
out, and a group that is never closed ends with the source.
-/
namespace ClasspathSymbols.SourceFile

inductive Tree where
  | leaf (t : Token)
  | group (b : Bracket) (children : List Tree)

namespace Tree

structure Frame where
  bracket : Bracket
  before : List Tree

/-- The trees of the innermost open group in reverse, and the groups around it. -/
structure Builder where
  here : List Tree
  frames : List Frame

def Builder.start : Builder := ⟨[], []⟩

def Builder.close (b : Builder) : Builder :=
  match b.frames with
  | [] => b
  | f :: frames => ⟨.group f.bracket b.here.reverse :: f.before, frames⟩

def Builder.push (b : Builder) (t : Token) : Builder :=
  match t.shape with
  | .opening bracket => ⟨[], ⟨bracket, b.here⟩ :: b.frames⟩
  | .closing bracket =>
    if (b.frames.head?.map Frame.bracket) = some bracket then b.close else b
  | _ => { b with here := .leaf t :: b.here }

def Builder.closeAll (b : Builder) : Nat → Builder
  | 0 => b
  | n + 1 => b.close.closeAll n

def Builder.finish (b : Builder) : List Tree := (b.closeAll b.frames.length).here.reverse

def ofTokens (tokens : List Token) : List Tree := (tokens.foldl Builder.push .start).finish

end Tree

end ClasspathSymbols.SourceFile
