/-
From an option record to contracts and source text.
-/
import TokenForge.Source.File
import TokenForge.Token.Erc721
import TokenForge.Token.Erc1155

namespace TokenForge.OptionRecord

/-- The contracts a record describes, in output order. -/
def contracts : OptionRecord → Except ContractError (List Contract)
  | .erc721 o => Token.Erc721.contracts o
  | .erc1155 o => Token.Erc1155.contracts o

/-- The source a record describes, with or without pinned imports. -/
def source (versioned : Bool) (r : OptionRecord) :
    Except ContractError String := do
  let contracts ← r.contracts
  if versioned then SourceFile.printVersioned contracts
  else SourceFile.printPlain contracts

end TokenForge.OptionRecord
