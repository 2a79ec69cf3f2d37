import MultithreadedWebServer.TableRuns
import MultithreadedWebServer.PathSafety
import MultithreadedWebServer.ServeRuns
import MultithreadedWebServer.DiskSearch
import MultithreadedWebServer.ThreadPoolRuns
import MultithreadedWebServer.ListRuns
import MultithreadedWebServer.GrowthFailures
import MultithreadedWebServer.QueryTerms
import MultithreadedWebServer.WriteFailures
import MultithreadedWebServer.FsckAccepts
import MultithreadedWebServer.ReaderSafety
import MultithreadedWebServer.CrawlRuns
import MultithreadedWebServer.UrlRoundTrip
import MultithreadedWebServer.StaticRequests
import MultithreadedWebServer.RequestHeads
import MultithreadedWebServer.QueryTotality
import MultithreadedWebServer.WakeUps
import MultithreadedWebServer.Corruptions
import MultithreadedWebServer.HtmlEscaping
import MultithreadedWebServer.ResponseStreams
import MultithreadedWebServer.StableSort
import MultithreadedWebServer.WordOccurrences
import MultithreadedWebServer.DocTableRuns
import MultithreadedWebServer.DirectoryCrawls
import MultithreadedWebServer.LongStrings
import MultithreadedWebServer.DelimitedTokens
import MultithreadedWebServer.SearchShell
import MultithreadedWebServer.ShellPasses
import MultithreadedWebServer.LookupFailures
import MultithreadedWebServer.PartialReads
import MultithreadedWebServer.PartialWrites
import MultithreadedWebServer.PoolProgress
import MultithreadedWebServer.ServerShutdown
import MultithreadedWebServer.ServerRuns
import MultithreadedWebServer.ApprovedReaders
import MultithreadedWebServer.FileSearchShell
import MultithreadedWebServer.WebSearch
import MultithreadedWebServer.TwoShells
import MultithreadedWebServer.HashCollisions
import MultithreadedWebServer.TableGrowth
import MultithreadedWebServer.ServerSocket
