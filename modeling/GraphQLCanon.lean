import GraphQLCanon.Text.Lines
import GraphQLCanon.Lexical.Number
import GraphQLCanon.Lexical.QuotedString
import GraphQLCanon.Lexical.BlockString
import GraphQLCanon.Lexical.Scan
import GraphQLCanon.Grammar.Definition
import GraphQLCanon.Grammar.Parser.Document
import GraphQLCanon.Grammar.Document
import GraphQLCanon.Executable.OfGrammar
import GraphQLCanon.Executable.Printing
import GraphQLCanon.TypeSystem.OfGrammar
import GraphQLCanon.TypeSystem.Printing
import GraphQLCanon.Options.Validation
import GraphQLCanon.Formatting
import GraphQLCanon.Comparison.Colour
import GraphQLCanon.CommandLine.Run
import GraphQLCanon.Main
import GraphQLCanon.Proofs.QueryRoundTrip
import GraphQLCanon.Proofs.SchemaRoundTrip
import GraphQLCanon.Proofs.QueryReordering
import GraphQLCanon.Proofs.SchemaReordering
import GraphQLCanon.Proofs.QueryRefusals
import GraphQLCanon.Proofs.SchemaRefusals
import GraphQLCanon.Proofs.DirectiveSigns
import GraphQLCanon.Proofs.QueryTokens
import GraphQLCanon.Proofs.KeptParts
import GraphQLCanon.Proofs.Reclassification
import GraphQLCanon.Proofs.ArgumentSorting
import GraphQLCanon.Proofs.StoreWriting
import GraphQLCanon.Proofs.WriteThenCheck
import GraphQLCanon.Proofs.FileByFile
import GraphQLCanon.Proofs.DocumentsInARow
import GraphQLCanon.Proofs.QueryOutlines
import GraphQLCanon.Proofs.SchemaOutlines
import GraphQLCanon.Proofs.ArgumentWrapping
import GraphQLCanon.Proofs.OutputLayout
import GraphQLCanon.Proofs.Recognition
import GraphQLCanon.Proofs.ErrorPlaces
import GraphQLCanon.Proofs.VisibleChanges
import GraphQLCanon.Proofs.DescriptionLines
import GraphQLCanon.Proofs.PrintingDepth
import GraphQLCanon.Proofs.OutputRuns
import GraphQLCanon.Proofs.ColouredChanges
