/-
A source file: the licence and compiler header, the imports of all contracts
together, and one block for each contract. The header takes the licence of
the first contract. Every import path goes through a transformation of the
caller's choice, which may pin it to a release.
-/
import TokenForge.Fragment.Writer
import TokenForge.Package.Pin
import TokenForge.Source.Block
import TokenForge.Source.Imports

namespace TokenForge.SourceFile

/-- The compiler release that the header asks for. -/
def compilerVersion : String := "0.8.2"

/-- The licence of the file. -/
def license (contracts : List Contract) : String :=
  (contracts.head?.map (·.license)).getD "MIT"

/-- The two header lines. -/
def header (contracts : List Contract) : List Fragment :=
  [.line ("// SPDX-License-Identifier: " ++ license contracts),
    .line ("pragma solidity ^" ++ compilerVersion ++ ";")]

/-- The imports of all contracts. -/
def imports (transform : String → String) (contracts : List Contract) :
    Imports :=
  Imports.ofList (contracts.flatMap fun c => c.importPaths.map transform)

/-- The import lines. -/
def importSection (transform : String → String) (contracts : List Contract) :
    List Fragment :=
  (imports transform contracts).statements.map .line

/-- The whole file, once the blocks are known. -/
def fragments (transform : String → String) (contracts : List Contract)
    (blocks : List (List Fragment)) : List Fragment :=
  Fragment.joinSections
    ([header contracts, importSection transform contracts] ++ blocks)

/-- The text of a file with the contracts in order. -/
def print (transform : String → String) (contracts : List Contract) :
    Except ContractError String := do
  let blocks ← contracts.mapM Contract.block
  .ok (Fragment.render (fragments transform contracts blocks))

/-- The text with the import paths as they are. -/
def printPlain (contracts : List Contract) : Except ContractError String :=
  print id contracts

/-- The text with the imports pinned to the bundled release. -/
def printVersioned (contracts : List Contract) : Except ContractError String :=
  print (Package.pin Version.bundled) contracts

end TokenForge.SourceFile
