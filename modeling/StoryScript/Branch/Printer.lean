import StoryScript.Branch.Basic

/-! Nodes as the text they are written as: a chain is its branches one after another, each a keyword
with its condition in braces and then its body, and `fi{}` if it was closed. -/

namespace StoryScript

def Branch.print (b : Branch) : Text := b.kind.word ++ '{' :: b.condition ++ '}' :: b.body

def Chain.ending : Text := Keyword.ends.word ++ ['{', '}']

def Chain.print (c : Chain) : Text :=
  c.branches.flatMap Branch.print ++ if c.terminated then Chain.ending else []

namespace Node

def print : Node → Text
  | literal t => t
  | chain c => c.print

def printAll (nodes : List Node) : Text := nodes.flatMap print

@[simp] theorem printAll_nil : printAll [] = [] := rfl

@[simp] theorem printAll_cons (n : Node) (nodes : List Node) :
    printAll (n :: nodes) = n.print ++ printAll nodes :=
  List.flatMap_cons

end Node

end StoryScript
