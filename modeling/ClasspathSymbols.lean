import ClasspathSymbols.Main
import ClasspathSymbols.Config.Json
import ClasspathSymbols.ParsedFiles.Session
import ClasspathSymbols.Session
import ClasspathSymbols.Proofs.Session.Freshness
import ClasspathSymbols.Proofs.IndexCache.History
import ClasspathSymbols.Proofs.ClassFile.Reading
import ClasspathSymbols.Proofs.ClassFile.Pool
import ClasspathSymbols.Proofs.ClassFile.Skipping
import ClasspathSymbols.Proofs.ClassFile.Verdict
import ClasspathSymbols.Proofs.Files.Names
import ClasspathSymbols.Proofs.Files.Scan
import ClasspathSymbols.Proofs.FirstError
import ClasspathSymbols.Proofs.Index.Winners
import ClasspathSymbols.Proofs.Catalog
import ClasspathSymbols.Proofs.Index.Precedence
import ClasspathSymbols.Proofs.BinaryName
import ClasspathSymbols.Proofs.Index.Agreement
import ClasspathSymbols.Proofs.Session.Moments
import ClasspathSymbols.Proofs.IndexCache.Registration
import ClasspathSymbols.Proofs.Session.Holding
import ClasspathSymbols.Proofs.IndexCache.Waiting
import ClasspathSymbols.Proofs.IndexCache.Accounting
import ClasspathSymbols.Proofs.IndexCache.Candidates
import ClasspathSymbols.Proofs.IndexCache.Mirror
import ClasspathSymbols.Proofs.Session.Separation
import ClasspathSymbols.Proofs.Text.LineEnding
import ClasspathSymbols.Proofs.ParsedFiles.Get
import ClasspathSymbols.Proofs.ParsedFiles.Coherence
import ClasspathSymbols.Proofs.SourceFile.Nesting
import ClasspathSymbols.Proofs.BinaryName.Entry
import ClasspathSymbols.Proofs.Index.Shadowing
import ClasspathSymbols.Proofs.Files.Spelling
import ClasspathSymbols.Proofs.Index.Duplicates
import ClasspathSymbols.Proofs.IndexCache.Ownership
import ClasspathSymbols.Proofs.IndexCache.Failure
import ClasspathSymbols.Proofs.ParsedFiles.Accounting
import ClasspathSymbols.Proofs.Archive.Limit
import ClasspathSymbols.Proofs.Files.Tree
import ClasspathSymbols.Proofs.Catalog.Agreement
import ClasspathSymbols.Proofs.IndexCache.Deprecation
import ClasspathSymbols.Proofs.Index.Packages
import ClasspathSymbols.Proofs.SourceFile.Places
import ClasspathSymbols.Proofs.Files.Difference
import ClasspathSymbols.Proofs.Index.Twins
import ClasspathSymbols.Proofs.Index.ClassBytes
import ClasspathSymbols.Proofs.Classpath.Fingerprint
import ClasspathSymbols.Proofs.Index.RootOrder
import ClasspathSymbols.Proofs.BinaryName.Segments
import ClasspathSymbols.Proofs.Index.WritableNames
import ClasspathSymbols.Proofs.BinaryName.Separators
import ClasspathSymbols.Proofs.Classpath.Merging
import ClasspathSymbols.Proofs.Index.TypeNames
import ClasspathSymbols.Proofs.ClassFile.Prefixes
import ClasspathSymbols.Proofs.SourceFile.Bare
import ClasspathSymbols.Proofs.SourceFile.Respelling
import ClasspathSymbols.Proofs.SourceFile.Layout
import ClasspathSymbols.Proofs.CommandLine.SuppliedCommand
import ClasspathSymbols.Proofs.Workspace.FirstSpellings
import ClasspathSymbols.Proofs.Workspace.GuestFiles
import ClasspathSymbols.Proofs.Json.Numeral
import ClasspathSymbols.Proofs.Json.Printer
import ClasspathSymbols.Proofs.Json.RoundTrip
import ClasspathSymbols.Proofs.Json.Decode
import ClasspathSymbols.Proofs.Json.Scalar
import ClasspathSymbols.Proofs.Query.Forms
import ClasspathSymbols.Proofs.Query.Json
import ClasspathSymbols.Proofs.ClassFile.Calls
import ClasspathSymbols.Proofs.ClassFile.Walk
import ClasspathSymbols.Proofs.ClassFile.Search
import ClasspathSymbols.Proofs.CommandLine.ClassName
