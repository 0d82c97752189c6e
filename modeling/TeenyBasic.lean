import TeenyBasic.Arithmetic
import TeenyBasic.Block
import TeenyBasic.CProgram
import TeenyBasic.CodeBuffer
import TeenyBasic.CommandLine.Argument
import TeenyBasic.CommandLine.Console
import TeenyBasic.CommandLine.Flag
import TeenyBasic.CommandLine.Request
import TeenyBasic.CommandLine.Screen
import TeenyBasic.CommandLine.Service
import TeenyBasic.Compilation
import TeenyBasic.Destinations
import TeenyBasic.Diagnostic
import TeenyBasic.Ending
import TeenyBasic.Files.Access
import TeenyBasic.Files.Path
import TeenyBasic.Files.Tree
import TeenyBasic.Formula
import TeenyBasic.Lexer
import TeenyBasic.Machine
import TeenyBasic.Main
import TeenyBasic.Number.Binary
import TeenyBasic.Number.Decimal
import TeenyBasic.Number.Entered
import TeenyBasic.Number.Written
import TeenyBasic.Session
import TeenyBasic.Settings
import TeenyBasic.Settings.Checker
import TeenyBasic.Settings.File
import TeenyBasic.Settings.Library
import TeenyBasic.Symbols
import TeenyBasic.Text.Blank
import TeenyBasic.Text.DecimalDigit
import TeenyBasic.Text.Lines
import TeenyBasic.Text.Printable
import TeenyBasic.Text.Quoted
import TeenyBasic.Text.Utf8
import TeenyBasic.Token
import TeenyBasic.Yaml.Fault
import TeenyBasic.Yaml.Node
import TeenyBasic.Yaml.Outline
import TeenyBasic.Yaml.Piece
import TeenyBasic.Yaml.ScalarText
import TeenyBasic.Yaml.Source
import TeenyBasic.Yaml.Tag
import TeenyBasic.Yaml.Value
import TeenyBasic.Proofs.Acceptance
import TeenyBasic.Proofs.AcceptedRuns
import TeenyBasic.Proofs.AlikeRuns
import TeenyBasic.Proofs.BigStep
import TeenyBasic.Proofs.BlockExits
import TeenyBasic.Proofs.BlockPairs
import TeenyBasic.Proofs.CArithmetic
import TeenyBasic.Proofs.CLines
import TeenyBasic.Proofs.CParts
import TeenyBasic.Proofs.CProgramTree
import TeenyBasic.Proofs.CReading
import TeenyBasic.Proofs.CStructure
import TeenyBasic.Proofs.CText
import TeenyBasic.Proofs.CWords
import TeenyBasic.Proofs.ComparisonChains
import TeenyBasic.Proofs.CompiledFiles
import TeenyBasic.Proofs.CursorPositions
import TeenyBasic.Proofs.CursorSafety
import TeenyBasic.Proofs.DoubleBits
import TeenyBasic.Proofs.FileTroubles
import TeenyBasic.Proofs.FirstImpossibleToken
import TeenyBasic.Proofs.FormulaReading
import TeenyBasic.Proofs.FormulaValue
import TeenyBasic.Proofs.Grammar
import TeenyBasic.Proofs.GrammarKinds
import TeenyBasic.Proofs.JumpTable
import TeenyBasic.Proofs.Layout
import TeenyBasic.Proofs.LegalWords
import TeenyBasic.Proofs.LexicalFaults
import TeenyBasic.Proofs.LexicalGrammar
import TeenyBasic.Proofs.LineByLine
import TeenyBasic.Proofs.LinesOfText
import TeenyBasic.Proofs.LoopsAsJumps
import TeenyBasic.Proofs.MachineLines
import TeenyBasic.Proofs.MachineWalk
import TeenyBasic.Proofs.NamesInOrder
import TeenyBasic.Proofs.NearestDouble
import TeenyBasic.Proofs.NumberShapes
import TeenyBasic.Proofs.OneTokenAhead
import TeenyBasic.Proofs.OpenBlocks
import TeenyBasic.Proofs.OperatorGroups
import TeenyBasic.Proofs.PrintedNumbers
import TeenyBasic.Proofs.Progress
import TeenyBasic.Proofs.ReadArguments
import TeenyBasic.Proofs.RenamedRuns
import TeenyBasic.Proofs.Renaming
import TeenyBasic.Proofs.RepeatedLabels
import TeenyBasic.Proofs.ReportedFailures
import TeenyBasic.Proofs.Reruns
import TeenyBasic.Proofs.RespacedRuns
import TeenyBasic.Proofs.Respacing
import TeenyBasic.Proofs.RunningFiles
import TeenyBasic.Proofs.SettingsOrder
import TeenyBasic.Proofs.SettingsRules
import TeenyBasic.Proofs.ShortestDecimal
import TeenyBasic.Proofs.StandardSettings
import TeenyBasic.Proofs.StraightPrograms
import TeenyBasic.Proofs.SyntaxTree
import TeenyBasic.Proofs.TokenPortions
import TeenyBasic.Proofs.Utf8Text
import TeenyBasic.Proofs.Walk
import TeenyBasic.Proofs.WholeArithmetic
import TeenyBasic.Proofs.WholeDoubles
