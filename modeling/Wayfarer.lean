import Wayfarer.Library.Text
import Wayfarer.Library.CodePoints
import Wayfarer.Library.Percent
import Wayfarer.Library.Form
import Wayfarer.Library.Jobs
import Wayfarer.Library.Json
import Wayfarer.Library.OrderedMap
import Wayfarer.Model.Request
import Wayfarer.Model.Variables
import Wayfarer.Variables.Resolver
import Wayfarer.Library.Base64
import Wayfarer.Auth.RequestAuth
import Wayfarer.Auth.KeptTokens
import Wayfarer.Auth.NewestToken
import Wayfarer.Auth.OAuth2
import Wayfarer.Send.Build
import Wayfarer.Send.Wire
import Wayfarer.Send.Transmit
import Wayfarer.Library.KeyedList
import Wayfarer.Send.Undo
import Wayfarer.Send.UndoExact
import Wayfarer.Transport.Limits
import Wayfarer.Transport.Fetch
import Wayfarer.Transport.Router
import Wayfarer.Library.Run
import Wayfarer.Run.Runner
import Wayfarer.Library.Effects
import Wayfarer.Variables.ResolverRuns
import Wayfarer.Send.Composed
import Wayfarer.Send.Hosts
import Wayfarer.Auth.Tokens
import Wayfarer.Send.TokenHosts
import Wayfarer.Model.Collections
import Wayfarer.Composer.Tabs
import Wayfarer.Composer.Sends
import Wayfarer.Composer.Saves
import Wayfarer.Variables.ResolverOnce
import Wayfarer.Send.Once
import Wayfarer.Library.Chain
import Wayfarer.Cookies.Jar
import Wayfarer.Cookies.Rules
import Wayfarer.Cookies.Tabs
import Wayfarer.Cookies.OneJar
import Wayfarer.Transport.Redirect
import Wayfarer.Transport.Bridge
import Wayfarer.Library.Replace
import Wayfarer.Redact.Redactor
import Wayfarer.Scripting.Host
import Wayfarer.Model.Validate
import Wayfarer.Send.JsonRows
import Wayfarer.Library.Table
import Wayfarer.Library.Forest
import Wayfarer.Library.Outline
import Wayfarer.Library.TwoKeys
import Wayfarer.Model.Documents
import Wayfarer.Import.CollectionFile
import Wayfarer.Store.Collections
import Wayfarer.Store.Imported
import Wayfarer.Store.Tree
import Wayfarer.Store.TreeRuns
import Wayfarer.Run.Order
import Wayfarer.Variables.Rows
import Wayfarer.Variables.MarkSecret
import Wayfarer.Export.Request
import Wayfarer.Export.Curl
import Wayfarer.Import.Curl
import Wayfarer.Export.Har
import Wayfarer.Import.Har
import Wayfarer.Import.HarRoundTrip
import Wayfarer.Import.CurlWords
import Wayfarer.Variables.Plain
import Wayfarer.Import.CurlRead
import Wayfarer.Import.CurlBuilt
import Wayfarer.Import.CopiedCurl
import Wayfarer.Import.CurlRules
import Wayfarer.Import.CurlArguments
import Wayfarer.Import.CurlAddress
import Wayfarer.Import.CurlTyped
import Wayfarer.Import.CurlFields
import Wayfarer.Import.CurlSends
import Wayfarer.Variables.Edits
import Wayfarer.Scripting.Written
import Wayfarer.Variables.AsksVault
import Wayfarer.Ai.ModelCall
import Wayfarer.Library.ReadBack
import Wayfarer.Bridge.Server
import Wayfarer.Bridge.Gate
import Wayfarer.Bridge.Protocol
import Wayfarer.Library.Marks
import Wayfarer.Variables.References
import Wayfarer.Export.Environments
import Wayfarer.Store.Refresh
import Wayfarer.Store.TreeFollows
import Wayfarer.Store.Files
import Wayfarer.Store.Undone
import Wayfarer.Store.FileRuns
import Wayfarer.Transport.EventStream
import Wayfarer.Library.Html
import Wayfarer.View.Preview
import Wayfarer.Store.Copied
import Wayfarer.Library.Placed
import Wayfarer.Export.PostmanTree
import Wayfarer.Library.Cut
import Wayfarer.Export.PostmanAddress
import Wayfarer.Library.Bytes
import Wayfarer.Share.Link
import Wayfarer.Variables.Meaning
import Wayfarer.Variables.ResolverMeans
import Wayfarer.Variables.Asked
import Wayfarer.Send.BuildRequest
import Wayfarer.Scripting.RequestView
import Wayfarer.Run.Trace
import Wayfarer.Library.Sorting
import Wayfarer.Run.Siblings
import Wayfarer.Import.Insomnia
import Wayfarer.Import.CmdWords
import Wayfarer.Run.DataFile
import Wayfarer.View.Xml
import Wayfarer.Ai.Script
import Wayfarer.Bridge.Relay
import Wayfarer.Library.FetchStandard
import Wayfarer.Transport.Preflight
import Wayfarer.Variables.Undrawn
import Wayfarer.Export.AsSent
import Wayfarer.Store.History
import Wayfarer.Library.Mutable
import Wayfarer.Import.OpenApi
import Wayfarer.Transport.Deadline
import Wayfarer.Library.XmlDocument
import Wayfarer.Run.Report
import Wayfarer.Library.HtmlTags
import Wayfarer.Run.ReportPage
import Wayfarer.Send.Address
import Wayfarer.Library.Code
import Wayfarer.Export.Codegen
import Wayfarer.Export.Made
import Wayfarer.Export.FetchCode
import Wayfarer.Export.PythonCode
import Wayfarer.Library.Transducer
import Wayfarer.Library.Shell
import Wayfarer.Export.HttpieCode
import Wayfarer.Export.GeneratedCode
import Wayfarer.Export.CurlCommand
import Wayfarer.Library.Query
import Wayfarer.Composer.Params
