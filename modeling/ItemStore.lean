import ItemStore.Arithmetic
import ItemStore.Blank
import ItemStore.Number
import ItemStore.NameMap
import ItemStore.NameList
import ItemStore.Value
import ItemStore.Value.Decoded
import ItemStore.Value.Fingerprint
import ItemStore.Condition
import ItemStore.Json
import ItemStore.Json.Token
import ItemStore.Json.Reader
import ItemStore.Wire.Decoder
import ItemStore.Wire.Value
import ItemStore.Schema.Declaration
import ItemStore.Schema
import ItemStore.Work
import ItemStore.Rows
import ItemStore.Select
import ItemStore.Select.Token
import ItemStore.Select.Reader
import ItemStore.Request
import ItemStore.Wire.Declaration
import ItemStore.Wire.Request
import ItemStore.Fault
import ItemStore.Table
import ItemStore.Response
import ItemStore.Answer.Checks
import ItemStore.Answer.Tables
import ItemStore.Answer.Items
import ItemStore.Answer.Search
import ItemStore.Answer.Batch
import ItemStore.Store
import ItemStore.Wire.Response
import ItemStore.Service
import ItemStore.Script
import ItemStore.Main
import ItemStore.Proofs.NumberOrder
import ItemStore.Proofs.Sameness
import ItemStore.Proofs.Agreement
import ItemStore.Proofs.AlikeItems
import ItemStore.Proofs.AlikeRows
import ItemStore.Proofs.JsonText
import ItemStore.Proofs.ValueText
import ItemStore.Proofs.Work
import ItemStore.Proofs.Attempts
import ItemStore.Proofs.FailedRequests
import ItemStore.Proofs.KeyedMap
import ItemStore.Proofs.WriteRequests
import ItemStore.Proofs.BatchWrites
import ItemStore.Proofs.Statements
import ItemStore.Proofs.ValueOrder
import ItemStore.Proofs.ReadPaths
import ItemStore.Proofs.Rounding
import ItemStore.Proofs.Spelling
import ItemStore.Proofs.RoundTrip
import ItemStore.Proofs.Respelling
import ItemStore.Proofs.NumeralOrder
import ItemStore.Proofs.Paging
import ItemStore.Proofs.Renderings
import ItemStore.Proofs.RequestText
import ItemStore.Proofs.Projections
import ItemStore.Proofs.IndependentWrites
import ItemStore.Proofs.RepeatedWrites
import ItemStore.Proofs.Lifecycle
import ItemStore.Proofs.Isolation
import ItemStore.Proofs.CommandLines
import ItemStore.Proofs.ResponseText
import ItemStore.Proofs.Scripts
import ItemStore.Proofs.BatchReads
import ItemStore.Proofs.KeyQueries
import ItemStore.Proofs.Updates
import ItemStore.Proofs.CanonicalSpelling
import ItemStore.Proofs.StatementLanguage
import ItemStore.Proofs.Layouts
import ItemStore.Proofs.Operators
import ItemStore.Proofs.SearchOutcomes
import ItemStore.Proofs.AcceptedQueries
import ItemStore.Proofs.AcceptedKeys
import ItemStore.Proofs.RowMoves
import ItemStore.Proofs.Fingerprints
import ItemStore.Proofs.NumeralGrammar
import ItemStore.Proofs.JsonGrammar
import ItemStore.Proofs.ValueDecoding
import ItemStore.Proofs.DecodedRequests
import ItemStore.Proofs.RefusedNumbers
